import ResourceLint.Declaration.Member
import ResourceLint.Text.Cut

/-!
Declarations of classes and interfaces, known by their fully qualified names.
-/

namespace ResourceLint

open Data

structure ClassDecl where
  fqn : String
  base : Option String := none
  interfaces : List String := []
  isAbstract : Bool := false
  properties : List PropertyDecl := []
  methods : List MethodDecl := []
  docs : Docs := .empty

structure InterfaceDecl where
  fqn : String
  /-- The interfaces that this one extends. -/
  interfaces : List String := []
  properties : List PropertyDecl := []
  methods : List MethodDecl := []
  docs : Docs := .empty

def simpleName (fqn : String) : String := Text.afterLast '.' fqn

namespace ClassDecl

def simpleName (c : ClassDecl) : String := ResourceLint.simpleName c.fqn

def tag? (c : ClassDecl) (name : String) : Option String := c.docs.tag? name

def ofName (fqn : String) : ClassDecl := { fqn := fqn }

def withBase (c : ClassDecl) (base : String) : ClassDecl := { c with base := some base }

def withInterface (c : ClassDecl) (fqn : String) : ClassDecl :=
  { c with interfaces := c.interfaces ++ [fqn] }

def withTag (c : ClassDecl) (name text : String) : ClassDecl :=
  { c with docs := c.docs.withTag name text }

def withProperty (c : ClassDecl) (p : PropertyDecl) : ClassDecl :=
  { c with properties := c.properties ++ [p] }

def withMethod (c : ClassDecl) (m : MethodDecl) : ClassDecl :=
  { c with methods := c.methods ++ [m] }

def encode (c : ClassDecl) : Value :=
  .record <|
    [("fqn", .text c.fqn)]
    ++ (c.base.map fun s => ("base", Value.text s)).toList
    ++ [("interfaces", .list (c.interfaces.map Value.text)), ("abstract", .bool c.isAbstract),
      ("properties", .list (c.properties.map PropertyDecl.encode)),
      ("methods", .list (c.methods.map MethodDecl.encode)), ("docs", c.docs.encode)]

def decode (v : Value) : Option ClassDecl := do
  let fs ← Format.json.fields?
    ["fqn", "base", "interfaces", "abstract", "properties", "methods", "docs"] v
  return {
    fqn := ← fs.required "fqn" Value.text?
    base := ← fs.optional "base" Value.text?
    interfaces := ← fs.defaulted "interfaces" [] (Value.listOf? Value.text?)
    isAbstract := ← fs.defaulted "abstract" false Value.bool?
    properties := ← fs.defaulted "properties" [] (Value.listOf? PropertyDecl.decode)
    methods := ← fs.defaulted "methods" [] (Value.listOf? MethodDecl.decode)
    docs := ← fs.defaulted "docs" .empty Docs.decode }

end ClassDecl

namespace InterfaceDecl

def simpleName (i : InterfaceDecl) : String := ResourceLint.simpleName i.fqn

def ofName (fqn : String) : InterfaceDecl := { fqn := fqn }

def withBase (i : InterfaceDecl) (fqn : String) : InterfaceDecl :=
  { i with interfaces := i.interfaces ++ [fqn] }

def withProperty (i : InterfaceDecl) (p : PropertyDecl) : InterfaceDecl :=
  { i with properties := i.properties ++ [p] }

def encode (i : InterfaceDecl) : Value :=
  .record
    [("fqn", .text i.fqn), ("interfaces", .list (i.interfaces.map Value.text)),
      ("properties", .list (i.properties.map PropertyDecl.encode)),
      ("methods", .list (i.methods.map MethodDecl.encode)), ("docs", i.docs.encode)]

def decode (v : Value) : Option InterfaceDecl := do
  let fs ← Format.json.fields? ["fqn", "interfaces", "properties", "methods", "docs"] v
  return {
    fqn := ← fs.required "fqn" Value.text?
    interfaces := ← fs.defaulted "interfaces" [] (Value.listOf? Value.text?)
    properties := ← fs.defaulted "properties" [] (Value.listOf? PropertyDecl.decode)
    methods := ← fs.defaulted "methods" [] (Value.listOf? MethodDecl.decode)
    docs := ← fs.defaulted "docs" .empty Docs.decode }

end InterfaceDecl

end ResourceLint
