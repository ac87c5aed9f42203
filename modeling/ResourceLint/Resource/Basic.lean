import ResourceLint.Config
import ResourceLint.Resource.Attribute
import ResourceLint.Resource.Construct
import ResourceLint.Resource.Schema
import ResourceLint.Rule.Basic

/-!
Resources: the constructs that wrap a schema entry, with all that the conventions look at.
-/

namespace ResourceLint

structure Resource where
  types : TypeTable
  framework : Framework
  construct : Construct
  schema : SchemaEntry
  attributes : List AttributeBinding

structure SchemaNotFound where
  fqn : String
  /-- The type name that the shape of the class name suggests. -/
  guess : String
  deriving DecidableEq, Repr

namespace SchemaNotFound

def ofClass (c : ClassDecl) : SchemaNotFound :=
  ⟨c.fqn, (Naming.inferredType? c.fqn).getD "<none>"⟩

def message (e : SchemaNotFound) : String :=
  "Cannot find schema resource for " ++ e.fqn ++ " (tried " ++ e.guess ++ ")"

def code : String := "construct_lint::schema_not_found"

def help : String :=
  "add `@resource ORG::NS::Name` to the class documentation to name its schema resource explicitly"

end SchemaNotFound

instance : Subject Resource := ⟨fun r => r.construct.decl.fqn⟩

namespace Resource

def fqn (r : Resource) : String := r.construct.decl.fqn

def basename (r : Resource) : String := r.construct.decl.simpleName

def ofConstruct (t : TypeTable) (cat : Catalog) (f : Framework) (c : Construct) :
    Run SchemaNotFound Resource := do
  Traced.lines (t.schemaLog cat c.decl)
  match t.schemaFor? cat c.decl with
  | none => throw (.ofClass c.decl)
  | some schema =>
    Traced.debug (c.decl.fqn ++ " -> " ++ schema.typeName)
    return ⟨t, f, c, schema, t.attributeBindings c.decl schema⟩

/-- Finds the schema entries of constructs in order, up to the first that has none. -/
def ofConstructs (t : TypeTable) (cat : Catalog) (f : Framework) :
    List Construct → Run SchemaNotFound (List Resource)
  | [] => return []
  | c :: cs => do
    let r ← ofConstruct t cat f c
    let rs ← ofConstructs t cat f cs
    return r :: rs

end Resource

namespace TypeTable

def isResourceClass (t : TypeTable) (f : Framework) (c : ClassDecl) : Bool :=
  t.classExtends c f.resource || (c.tag? resourceTag).isSome

def resources (t : TypeTable) (cat : Catalog) (f : Framework) :
    Run SchemaNotFound (List Resource) := do
  let constructs := t.constructs f.construct
  Traced.lines (constructs.map Construct.logLine)
  Resource.ofConstructs t cat f (constructs.filter (t.isResourceClass f ·.decl))

end TypeTable

end ResourceLint
