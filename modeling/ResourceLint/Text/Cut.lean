/-!
Cutting text at separators. Every function is a recursion on the characters, with a wrapper on
`String`.
-/

namespace ResourceLint.Text

/-- The pieces between the items of a class. There is always at least one piece, and pieces may be
empty. -/
def splitWhere {α : Type} (p : α → Bool) : List α → List (List α)
  | [] => [[]]
  | c :: cs =>
    if p c then
      [] :: splitWhere p cs
    else
      match splitWhere p cs with
      | [] => [[c]]
      | piece :: pieces => (c :: piece) :: pieces

def split (sep : Char) (s : String) : List String :=
  (splitWhere (· = sep) s.toList).map String.ofList

def cutFirstChars (sep : Char) : List Char → Option (List Char × List Char)
  | [] => none
  | c :: cs =>
    if c = sep then
      some ([], cs)
    else
      (cutFirstChars sep cs).map fun p => (c :: p.1, p.2)

def cutFirst (sep : Char) (s : String) : Option (String × String) :=
  (cutFirstChars sep s.toList).map fun p => (String.ofList p.1, String.ofList p.2)

def cutLastChars (sep : Char) (cs : List Char) : Option (List Char × List Char) :=
  (cutFirstChars sep cs.reverse).map fun p => (p.2.reverse, p.1.reverse)

def cutLast (sep : Char) (s : String) : Option (String × String) :=
  (cutLastChars sep s.toList).map fun p => (String.ofList p.1, String.ofList p.2)

/-- The piece after the last separator, or the whole text when there is none. -/
def afterLastChars (sep : Char) (cs : List Char) : List Char :=
  (cs.reverse.takeWhile (· != sep)).reverse

def afterLast (sep : Char) (s : String) : String :=
  String.ofList (afterLastChars sep s.toList)

def untilDoubled (sep : Char) : List Char → List Char
  | [] => []
  | [c] => [c]
  | c :: d :: cs => if c = sep ∧ d = sep then [] else c :: untilDoubled sep (d :: cs)

def afterLastDoubledChars (sep : Char) (cs : List Char) : List Char :=
  (untilDoubled sep cs.reverse).reverse

def afterLastDoubled (sep : Char) (s : String) : String :=
  String.ofList (afterLastDoubledChars sep s.toList)

/-- The pieces of a comma-separated list, trimmed by `tidy`, without the empty ones. -/
def listed (tidy : String → String) (s : String) : List String :=
  ((split ',' s).map tidy).filter (· != "")

end ResourceLint.Text
