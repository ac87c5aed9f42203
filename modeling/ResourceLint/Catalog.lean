import ResourceLint.Data.Record
import ResourceLint.Json.Reader
import ResourceLint.Text.Cut

/-!
Schema entries, the low-level resource types that classes wrap, and the catalogue of them by type
name.
-/

namespace ResourceLint

open Data

structure SchemaEntry where
  typeName : String
  /-- The attributes of the resource, in schema order. -/
  attributes : List String := []
  deriving DecidableEq, Repr

namespace SchemaEntry

def basename (s : SchemaEntry) : String := Text.afterLastDoubled ':' s.typeName

def encode (s : SchemaEntry) : Value :=
  .record [("type", .text s.typeName), ("attributes", .list (s.attributes.map Value.text))]

def decode (v : Value) : Option SchemaEntry := do
  let fs ← Format.json.fields? ["type", "attributes"] v
  return {
    typeName := ← fs.required "type" Value.text?
    attributes := ← fs.defaulted "attributes" [] (Value.listOf? Value.text?) }

end SchemaEntry

/-- At most one entry for each type name. -/
structure Catalog where
  entries : List SchemaEntry := []

namespace Catalog

def empty : Catalog := {}

def size (c : Catalog) : Nat := c.entries.length

def find? (c : Catalog) (typeName : String) : Option SchemaEntry :=
  c.entries.find? (·.typeName = typeName)

def add (c : Catalog) (s : SchemaEntry) : Catalog :=
  ⟨c.entries.filter (·.typeName ≠ s.typeName) ++ [s]⟩

def ofList (entries : List SchemaEntry) : Catalog := entries.foldl add empty

def decode (v : Value) : Option Catalog := do
  let fs ← Format.json.fields? ["resources"] v
  return ofList (← fs.defaulted "resources" [] (Value.listOf? SchemaEntry.decode))

end Catalog

end ResourceLint
