import ResourceLint.Declaration.Docs
import ResourceLint.Declaration.TypeRef

/-!
Members of classes and interfaces: properties, and methods with their parameters.
-/

namespace ResourceLint

open Data

structure PropertyDecl where
  name : String
  type : TypeRef := .any
  immutable : Bool := false
  optional : Bool := false
  static : Bool := false
  isProtected : Bool := false
  /-- The type that declares the property this one overrides. -/
  overrides : Option String := none
  docs : Docs := .empty

structure ParameterDecl where
  name : String
  type : TypeRef := .any
  optional : Bool := false

structure MethodDecl where
  name : String
  /-- No type for a method that returns nothing. -/
  returns : Option TypeRef := none
  parameters : List ParameterDecl := []
  static : Bool := false
  isProtected : Bool := false
  docs : Docs := .empty

namespace PropertyDecl

def ofName (name : String) : PropertyDecl := { name := name }

def asImmutable (p : PropertyDecl) : PropertyDecl := { p with immutable := true }

def withType (p : PropertyDecl) (type : TypeRef) : PropertyDecl := { p with type := type }

def overriding (p : PropertyDecl) (owner : String) : PropertyDecl :=
  { p with overrides := some owner }

def withTag (p : PropertyDecl) (name text : String) : PropertyDecl :=
  { p with docs := p.docs.withTag name text }

def encode (p : PropertyDecl) : Value :=
  .record <|
    [("name", .text p.name), ("type", p.type.encode), ("immutable", .bool p.immutable),
      ("optional", .bool p.optional), ("static", .bool p.static),
      ("protected", .bool p.isProtected)]
    ++ (p.overrides.map fun s => ("overrides", Value.text s)).toList
    ++ [("docs", p.docs.encode)]

def decode (v : Value) : Option PropertyDecl := do
  let fs ← Format.json.fields?
    ["name", "type", "immutable", "optional", "static", "protected", "overrides", "docs"] v
  return {
    name := ← fs.required "name" Value.text?
    type := ← fs.defaulted "type" .any TypeRef.decode
    immutable := ← fs.defaulted "immutable" false Value.bool?
    optional := ← fs.defaulted "optional" false Value.bool?
    static := ← fs.defaulted "static" false Value.bool?
    isProtected := ← fs.defaulted "protected" false Value.bool?
    overrides := ← fs.optional "overrides" Value.text?
    docs := ← fs.defaulted "docs" .empty Docs.decode }

end PropertyDecl

namespace ParameterDecl

/-- How a parameter is shown: its name, marked when it may be left out, and its type. -/
def signature (p : ParameterDecl) : String :=
  p.name ++ (if p.optional then "?" else "") ++ ": " ++ p.type.text

def encode (p : ParameterDecl) : Value :=
  .record [("name", .text p.name), ("type", p.type.encode), ("optional", .bool p.optional)]

def decode (v : Value) : Option ParameterDecl := do
  let fs ← Format.json.fields? ["name", "type", "optional"] v
  return {
    name := ← fs.required "name" Value.text?
    type := ← fs.defaulted "type" .any TypeRef.decode
    optional := ← fs.defaulted "optional" false Value.bool? }

end ParameterDecl

namespace MethodDecl

def ofName (name : String) : MethodDecl := { name := name }

def returning (m : MethodDecl) (type : TypeRef) : MethodDecl := { m with returns := some type }

def withParameter (m : MethodDecl) (p : ParameterDecl) : MethodDecl :=
  { m with parameters := m.parameters ++ [p] }

def encode (m : MethodDecl) : Value :=
  .record <|
    [("name", .text m.name)]
    ++ (m.returns.map fun t => ("returns", t.encode)).toList
    ++ [("parameters", .list (m.parameters.map ParameterDecl.encode)),
      ("static", .bool m.static), ("protected", .bool m.isProtected), ("docs", m.docs.encode)]

def decode (v : Value) : Option MethodDecl := do
  let fs ← Format.json.fields?
    ["name", "returns", "parameters", "static", "protected", "docs"] v
  return {
    name := ← fs.required "name" Value.text?
    returns := ← fs.optional "returns" TypeRef.decode
    parameters := ← fs.defaulted "parameters" [] (Value.listOf? ParameterDecl.decode)
    static := ← fs.defaulted "static" false Value.bool?
    isProtected := ← fs.defaulted "protected" false Value.bool?
    docs := ← fs.defaulted "docs" .empty Docs.decode }

end MethodDecl

end ResourceLint
