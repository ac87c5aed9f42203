import ResourceLint.Data.Dict
import ResourceLint.Data.Record

/-!
The documentation of a declaration: a summary and tags with text.
-/

namespace ResourceLint

open Data

structure Docs where
  summary : Option String
  tags : Dict String

namespace Docs

def empty : Docs := ⟨none, Dict.empty⟩

instance : Inhabited Docs := ⟨empty⟩

def tag? (d : Docs) (name : String) : Option String := d.tags.get? name

def withTag (d : Docs) (name text : String) : Docs :=
  { d with tags := d.tags.insert name text }

def encode (d : Docs) : Value :=
  .record <|
    (d.summary.map fun s => ("summary", Value.text s)).toList
    ++ (if d.tags.isEmpty then []
      else [("custom", .record (d.tags.entries.map fun e => (e.1, .text e.2)))])

def decode (v : Value) : Option Docs := do
  let fs ← Format.json.fields? ["summary", "custom"] v
  return {
    summary := ← fs.optional "summary" Value.text?
    tags := Dict.ofList (← fs.defaulted "custom" [] (Value.entriesOf? Value.text?)) }

end Docs

end ResourceLint
