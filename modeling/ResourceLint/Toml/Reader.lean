import ResourceLint.Toml.Moment
import ResourceLint.Toml.Number
import ResourceLint.Toml.Table

/-!
From the text of a TOML document to its value. A document is a sequence of lines, each of them
blank, an entry, or the header of the table that the next entries belong to.
-/

namespace ResourceLint.Toml

open Data Text

def isWordChar (c : Char) : Bool := isAlphanumeric c || c ∈ ['_', '+', '-', '.', ':']

/-- The name of the only entry of the record that stands for a date or time. No bare key has it. -/
def momentName : String := "$__toml_private_datetime"

def momentValue (written : List Char) : Value :=
  .record [(momentName, .text (String.ofList written))]

def wordValue? (word : List Char) : Option Value :=
  if word = ['t', 'r', 'u', 'e'] then some (.bool true)
  else if word = ['f', 'a', 'l', 's', 'e'] then some (.bool false)
  else if isMoment word then some (momentValue word)
  else number? word

/-- An unquoted value. A date and a time may have a blank between them. -/
def bareValue : Scan Value := fun cs => do
  let (word, rest) ← spanSome isWordChar cs
  let v ← wordValue? word
  match rest with
  | ' ' :: rest' =>
    let time := rest'.takeWhile isWordChar
    if isDate word && isZonedTime time then
      some (momentValue (word ++ ' ' :: time), rest'.dropWhile isWordChar)
    else some (v, rest)
  | _ => some (v, rest)

/-- The items of an array up to its closing bracket. A comma may follow the last one. -/
def arrayItems (item : Scan Value) (cs : List Char) : Option (List Value × List Char) :=
  match skipLayout false cs with
  | ']' :: rest => some ([], rest)
  | start =>
    match item start with
    | none => none
    | some (v, after) =>
      match skipLayout false after with
      | ']' :: rest => some ([v], rest)
      | ',' :: rest =>
        if rest.length < cs.length then
          (arrayItems item rest).map fun p => (v :: p.1, p.2)
        else none
      | _ => none
termination_by cs.length

def keyed (value : Scan Value) : Scan (Key × Value) := fun cs => do
  let (k, cs) ← key cs
  let (v, rest) ← value (skipBlanks (← dropChar '=' cs))
  return ((k, v), rest)

def assignAll (entries : List (Key × Value)) (t : Table) : Option Table :=
  entries.foldlM (fun t e => t.assign e.1 e.2) t

/-- A table on one line, after its opening brace. No comma follows the last entry. -/
def inlineTable (value : Scan Value) : Scan Value := fun cs =>
  match skipBlanks cs with
  | '\x7d' :: rest => some (.record [], rest)
  | cs => do
    let item : Scan (Key × Value) := fun cs =>
      (keyed value cs).map fun p => (p.1, skipBlanks p.2)
    let (entries, rest) ← separated ',' item cs
    let t ← assignAll entries (.empty .header)
    return (t.toValue, ← dropChar '\x7d' rest)

def value : Nat → Scan Value
  | levels, cs =>
    match cs with
    | [] => none
    | c :: rest =>
      match quote? c with
      | some q => (quotedBody q rest).map fun p => (.text (String.ofList p.1), p.2)
      | none =>
        if c = '[' then
          match levels with
          | 0 => none
          | levels + 1 => (arrayItems (value levels) rest).map fun p => (.list p.1, p.2)
        else if c = '\x7b' then
          match levels with
          | 0 => none
          | levels + 1 => inlineTable (value levels) rest
        else bareValue cs

def nestingLimit : Nat := 79

inductive Statement where
  | entry (k : Key) (v : Value)
  /-- The header of a table. -/
  | table (k : Key)
  /-- The header of a further table of an array. -/
  | element (k : Key)

def statement : Scan Statement
  | '[' :: '[' :: cs => do
    let (k, rest) ← key cs
    return (.element k, ← dropWord [']', ']'] rest)
  | '[' :: cs => do
    let (k, rest) ← key cs
    return (.table k, ← dropChar ']' rest)
  | cs => (keyed (value nestingLimit) cs).map fun p => (.entry p.1.1 p.1.2, p.2)

def line (cs : List Char) : Option (Option Statement × List Char) :=
  match lineEnd? cs with
  | some rest => some (none, rest)
  | none => do
    let (s, rest) ← statement (skipBlanks cs)
    return (some s, ← lineEnd? rest)

/-- The statements of a document. Every line takes at least one character, or the reading
fails. -/
def statements (cs : List Char) : Option (List Statement) :=
  match cs with
  | [] => some []
  | c :: tail =>
    match line (c :: tail) with
    | none => none
    | some (s, rest) =>
      if rest.length ≤ tail.length then (statements rest).map (s.toList ++ ·) else none
termination_by cs.length

/-- A document part way through: its table, and the path of the last header. -/
structure Draft where
  root : Table := .empty .header
  path : List String := []

def Draft.add (d : Draft) : Statement → Option Draft
  | .entry k v =>
    (Table.alterAt .implied (Table.assign k v) d.path d.root).map ({ d with root := · })
  | .table k => (d.root.openTable k).map (⟨·, k.path⟩)
  | .element k => (d.root.openElement k).map (⟨·, k.path⟩)

def skipMark : List Char → List Char
  | '\ufeff' :: cs => cs
  | cs => cs

def parse (s : String) : Option Value := do
  let ss ← statements (skipMark s.toList)
  let d ← ss.foldlM Draft.add {}
  return d.root.toValue

def isStampText : Value → Bool
  | .text s => isStamp s.toList
  | _ => false

mutual

/-- Whether the dates and times within a value can be read. A record that starts with their name
stands for one, and whatever else it holds is passed over. -/
def isTimely : Value → Bool
  | .list vs => areTimely vs
  | .record [] => true
  | .record ((name, v) :: entries) =>
    if name = momentName then isStampText v else isTimely v && entriesTimely entries
  | _ => true

def areTimely : List Value → Bool
  | [] => true
  | v :: vs => isTimely v && areTimely vs

def entriesTimely : List (String × Value) → Bool
  | [] => true
  | (_, v) :: entries => isTimely v && entriesTimely entries

end

/-- The entries of a document whose layout is not known beforehand. All values are read, dates and
times included. -/
def entries? (s : String) : Option (List (String × Value)) :=
  match parse s with
  | some (.record entries) => if entriesTimely entries then some entries else none
  | _ => none

def decode {α : Type} (read : Value → Option α) (s : String) : Option α :=
  (parse s).bind read

end ResourceLint.Toml
