import ResourceLint.Glob.Pattern

/-!
Matching a text against a glob pattern. For each token from the last to the first, a row says of
every rest of the text whether the tokens from there on match it, so that the work is the product
of the two lengths.
-/

namespace ResourceLint.Glob

def ClassItem.holds (c : Char) : ClassItem → Bool
  | .single d => c = d
  | .range low high => low ≤ c && c ≤ high

def Token.accepts (c : Char) : Token → Bool
  | .literal d => c = d
  | .anyChar => true
  | .within items => items.any (ClassItem.holds c)
  | .outside items => !items.any (ClassItem.holds c)
  | .anyText => false
  | .anyPath => false

def endRow : List Char → List Bool
  | [] => [true]
  | _ :: cs => false :: endRow cs

def charRow (t : Token) : List Char → List Bool → List Bool
  | c :: cs, _ :: row => (t.accepts c && row.headD false) :: charRow t cs row
  | _, _ => [false]

def textRow : List Bool → List Bool
  | [] => []
  | b :: row =>
    let rest := textRow row
    (b || rest.headD false) :: rest

/-- Of every rest, whether a strictly later one matches that starts after a slash or is empty. -/
def laterRow : List Char → List Bool → List Bool
  | c :: cs, _ :: row =>
    let rest := laterRow cs row
    ((c = '/' || cs.isEmpty) && row.headD false || rest.headD false) :: rest
  | _, _ => [false]

def pathRow (cs : List Char) (row : List Bool) : List Bool :=
  List.zipWith (· || ·) row (laterRow cs row)

def tokenRow (cs : List Char) (t : Token) (row : List Bool) : List Bool :=
  match t with
  | .anyText => textRow row
  | .anyPath => pathRow cs row
  | t => charRow t cs row

def Pattern.matchesChars (p : Pattern) (cs : List Char) : Bool :=
  (p.tokens.foldr (tokenRow cs) (endRow cs)).headD false

def Pattern.matches (p : Pattern) (s : String) : Bool := p.matchesChars s.toList

end ResourceLint.Glob
