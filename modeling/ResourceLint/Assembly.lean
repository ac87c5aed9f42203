import ResourceLint.Declaration.Type

/-!
An assembly: the classes and interfaces that a library declares, and the assemblies it depends on,
nested to any depth.
-/

namespace ResourceLint

open Data

structure Assembly where
  name : String
  classes : List ClassDecl := []
  interfaces : List InterfaceDecl := []
  dependencies : List Assembly := []

namespace Assembly

mutual

def encode : Assembly → Value
  | ⟨name, classes, interfaces, dependencies⟩ =>
    .record
      [("name", .text name), ("classes", .list (classes.map ClassDecl.encode)),
        ("interfaces", .list (interfaces.map InterfaceDecl.encode)),
        ("dependencies", .list (encodeAll dependencies))]

def encodeAll : List Assembly → List Value
  | [] => []
  | a :: as => a.encode :: encodeAll as

end

def fieldNames : List String := ["name", "classes", "interfaces", "dependencies"]

def decode (v : Value) : Option Assembly :=
  match _hf : Format.json.fields? fieldNames v with
  | none => none
  | some fs => do
    let name ← fs.required "name" Value.text?
    let classes ← fs.defaulted "classes" [] (Value.listOf? ClassDecl.decode)
    let interfaces ← fs.defaulted "interfaces" [] (Value.listOf? InterfaceDecl.decode)
    let dependencies ←
      match _hd : fs.lookup "dependencies" with
      | none => some []
      | some (.list items) => items.attach.mapM fun item => decode item.val
      | some _ => none
    return ⟨name, classes, interfaces, dependencies⟩
termination_by sizeOf v
decreasing_by
  have hv := Format.sizeOf_field_lt _hf _hd
  have hi := List.sizeOf_lt_of_mem item.property
  simp at hv
  omega

end Assembly

end ResourceLint
