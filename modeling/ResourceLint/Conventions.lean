import ResourceLint.Resource.Basic

/-!
The conventions that resource classes are held to.
-/

namespace ResourceLint.Conventions

def classChecks (f : Framework) (r : Resource) : List Check :=
  [⟨r.types.classExtends r.construct.decl f.resource, r.fqn, none⟩]

def interfaceChecks (r : Resource) : List Check :=
  [⟨r.construct.interface.isSome, r.fqn, none⟩]

def interfaceBaseChecks (f : Framework) (r : Resource) : List Check :=
  match r.construct.interface with
  | none => []
  | some i => [⟨r.types.interfaceExtends i f.resourceInterface, i.fqn, none⟩]

def attributeChecks (r : Resource) : List Check :=
  r.schema.attributes.map fun a =>
    ⟨r.attributes.any (·.name = a), r.fqn ++ "." ++ Naming.expectedProperty r.schema a,
      some ("(missing attribute " ++ a ++ ")")⟩

def immutableChecks (r : Resource) : List Check :=
  r.attributes.map fun b => ⟨b.property.decl.immutable, b.scope, none⟩

def grantChecks (f : Framework) (r : Resource) : List Check :=
  ((r.types.methods r.construct.decl).filter (·.decl.name.startsWith "grant")).flatMap
    (ExpectedSignature.checks { returns := some (.named f.grant) })

def all (f : Framework) : List (Rule Resource) :=
  [.ofChecks "resource-class-extends-resource" ("resource classes must extend " ++ f.resource)
      .error (classChecks f),
    .ofChecks "resource-interface" "every resource must have a resource interface"
      .warning interfaceChecks,
    .ofChecks "resource-interface-extends-resource"
      ("resource interfaces must extend " ++ f.resourceInterface) .error (interfaceBaseChecks f),
    .ofChecks "resource-attribute"
      "resources must represent all resource attributes as properties" .error attributeChecks,
    .ofChecks "resource-attribute-immutable"
      "resource attributes must be immutable (readonly)" .error immutableChecks,
    .ofChecks "grant-result" ("\"grant\" method must return " ++ f.grant) .error (grantChecks f)]

end ResourceLint.Conventions
