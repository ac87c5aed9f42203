import ResourceLint.Toml.Quoted

/-!
Keys of a TOML document: names with dots between them, each bare or quoted.
-/

namespace ResourceLint.Toml

open Text

/-- A key: the names of the tables on the way, and the name within the last of them. -/
structure Key where
  parents : List String
  name : String
  deriving DecidableEq, Repr

def keyLimit : Nat := 79

def Key.ofNames? (names : List String) : Option Key :=
  if names.length ≤ keyLimit then names.getLast?.map (⟨names.dropLast, ·⟩) else none

def Key.path (k : Key) : List String := k.parents ++ [k.name]

def isBare (c : Char) : Bool := isAlphanumeric c || c = '_' || c = '-'

def keyName : Scan String := fun cs => do
  let cs := skipBlanks cs
  let (name, rest) ← match cs.head?.bind quote? with
    | some q => lineBody q cs.tail
    | none => spanSome isBare cs
  return (String.ofList name, skipBlanks rest)

def key : Scan Key := fun cs => do
  let (names, rest) ← separated '.' keyName cs
  return (← Key.ofNames? names, rest)

end ResourceLint.Toml
