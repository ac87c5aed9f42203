import ResourceLint.Text.Quoted

/-!
Patterns on paths, as ignore files hold them. A star and a question mark stand for what a single
step of the path holds, two stars that are a step of their own stand for any number of steps, and
braces hold alternatives. Patterns work on the bytes of a path.
-/

namespace ResourceLint.PathPattern

inductive Token where
  | literal (c : Char)
  | anyChar
  | anyText
  /-- Two stars at the start, with the slash after them. -/
  | leadingPath
  /-- Two stars with the slashes around them. -/
  | innerPath
  /-- Two stars at the end, with the slash before them. -/
  | trailingPath
  | oneIn (ranges : List (Char × Char)) (negated : Bool)
  | oneOf (branches : List (List Token))

inductive Fault where
  | badRange (low high : Char)
  | unopenedGroup
  | unclosedGroup
  | danglingEscape
  deriving DecidableEq, Repr

def Fault.message : Fault → String
  | .badRange low high => "invalid range; '" ++ low.toString ++ "' > '" ++ high.toString ++ "'"
  | .unopenedGroup =>
    "unopened alternate group; missing '\x7b' (maybe escape '\x7d' with '[\x7d]'?)"
  | .unclosedGroup =>
    "unclosed alternate group; missing '\x7d' (maybe escape '\x7b' with '[\x7b]'?)"
  | .danglingEscape => "dangling '\\'"

/-- The ranges of a class after its opening mark, and what follows the class, with `ranges` those
read before, the last one first. A bracket or a hyphen that comes first stands for itself. A class
that is not closed is none. -/
def classRanges (ranges : List (Char × Char)) (first inRange : Bool) :
    List Char → Except Fault (Option (List (Char × Char) × List Char))
  | [] => .ok none
  | c :: cs =>
    if c = ']' && !first then
      .ok (some ((if inRange then ('-', '-') :: ranges else ranges).reverse, cs))
    else if c = '-' && !first && !inRange then classRanges ranges false true cs
    else
      match inRange, ranges with
      | true, (low, _) :: others =>
        if c < low then .error (.badRange low c)
        else classRanges ((low, c) :: others) false false cs
      | _, _ => classRanges ((c, c) :: ranges) false false cs

def charClass : List Char → Except Fault (Option (Token × List Char))
  | '!' :: cs => (classRanges [] true false cs).map fun x => x.map fun p => (.oneIn p.1 true, p.2)
  | '^' :: cs => (classRanges [] true false cs).map fun x => x.map fun p => (.oneIn p.1 true, p.2)
  | cs => (classRanges [] true false cs).map fun x => x.map fun p => (.oneIn p.1 false, p.2)

theorem classRanges_length {ranges found : List (Char × Char)} {first inRange : Bool}
    {cs rest : List Char} (h : classRanges ranges first inRange cs = .ok (some (found, rest))) :
    rest.length < cs.length := by
  induction cs generalizing ranges first inRange with
  | nil => cases h
  | cons c cs ih =>
    unfold classRanges at h
    split at h
    · cases h
      simp
    · split at h
      · exact Nat.lt_succ_of_lt (ih h)
      · split at h
        · split at h
          · cases h
          · exact Nat.lt_succ_of_lt (ih h)
        · exact Nat.lt_succ_of_lt (ih h)

theorem charClass_length {cs rest : List Char} {t : Token}
    (h : charClass cs = .ok (some (t, rest))) : rest.length < cs.length := by
  have hread : ∀ (negated : Bool) (cs' : List Char),
      ((classRanges [] true false cs').map fun x =>
        x.map fun p => (Token.oneIn p.1 negated, p.2)) = .ok (some (t, rest)) →
      rest.length < cs'.length := by
    intro negated cs' h'
    cases hranges : classRanges [] true false cs' with
    | error e =>
      rw [hranges] at h'
      cases h'
    | ok x =>
      cases x with
      | none =>
        rw [hranges] at h'
        cases h'
      | some p =>
        rw [hranges] at h'
        cases h'
        exact classRanges_length hranges
  unfold charClass at h
  split at h
  · exact Nat.lt_succ_of_lt (hread _ _ h)
  · exact Nat.lt_succ_of_lt (hread _ _ h)
  · exact hread _ _ h

structure Reading where
  /-- The tokens of the branch that is being read, the last one first. -/
  branch : List Token := []
  /-- For each open group, the innermost first: the tokens before it and its finished branches,
  the last ones first. -/
  groups : List (List Token × List (List Token)) := []
  previous : Option Char := none
  /-- A bracket that no other closes has been met, and from there on brackets are literals. -/
  plainBrackets : Bool := false

namespace Reading

def push (r : Reading) (t : Token) (previous : Char) : Reading :=
  { r with branch := t :: r.branch, previous := some previous }

/-- Two stars that are not a step of their own stand for two single ones. -/
def pushTexts (r : Reading) : Reading :=
  { r with branch := .anyText :: .anyText :: r.branch, previous := some '*' }

/-- Puts a token for any path in place of the slash before it. Of several such tokens in a row one
is enough. -/
def pushPath (r : Reading) (t : Token) (previous : Char) : Reading :=
  let branch := match r.branch with
    | .leadingPath :: ts => .leadingPath :: ts
    | .trailingPath :: ts => .trailingPath :: ts
    | _ :: ts => t :: ts
    | [] => [t]
  { r with branch := branch, previous := some previous }

def openGroup (r : Reading) : Reading :=
  { r with branch := [], groups := (r.branch, []) :: r.groups, previous := some '\x7b' }

def isNothing : Token → Bool
  | .oneOf [] => true
  | _ => false

/-- A group from its branches, the last one first. Empty branches do not count. -/
def groupOf (branches : List (List Token)) : Token :=
  .oneOf (branches.reverse.filter fun ts => !ts.all isNothing)

def closeGroup? (r : Reading) : Option Reading :=
  match r.groups with
  | [] => none
  | (before, finished) :: groups =>
    some { r with
      branch := groupOf (r.branch.reverse :: finished) :: before
      groups := groups
      previous := some '\x7d' }

/-- A comma ends a branch of the innermost group. Outside of groups it stands for itself. -/
def comma (r : Reading) : Reading :=
  match r.groups with
  | [] => r.push (.literal ',') ','
  | (before, finished) :: groups =>
    { r with
      branch := []
      groups := (before, r.branch.reverse :: finished) :: groups
      previous := some ',' }

def startsStep (r : Reading) : Bool :=
  r.previous = some '/' ||
    (!r.groups.isEmpty && (r.previous = some ',' || r.previous = some '\x7b'))

end Reading

def readTokens (r : Reading) (cs : List Char) : Except Fault (List Token) :=
  match cs with
  | [] => if r.groups.isEmpty then .ok r.branch.reverse else .error .unclosedGroup
  | '?' :: cs => readTokens (r.push .anyChar '?') cs
  | '*' :: '*' :: cs =>
    if r.branch.isEmpty then
      match cs with
      | [] => readTokens (r.push .leadingPath '*') []
      | '/' :: cs => readTokens (r.push .leadingPath '/') cs
      | cs => readTokens r.pushTexts cs
    else if !r.startsStep then readTokens r.pushTexts cs
    else
      match cs with
      | [] => readTokens (r.pushPath .trailingPath '*') []
      | '/' :: cs => readTokens (r.pushPath .innerPath '/') cs
      | c :: cs =>
        if !r.groups.isEmpty && (c = ',' || c = '\x7d') then
          readTokens (r.pushPath .trailingPath '*') (c :: cs)
        else readTokens r.pushTexts (c :: cs)
  | '*' :: cs => readTokens (r.push .anyText '*') cs
  | '[' :: cs =>
    if r.plainBrackets then readTokens (r.push (.literal '[') '[') cs
    else
      match _h : charClass cs with
      | .error e => .error e
      | .ok none => readTokens { r.push (.literal '[') '[' with plainBrackets := true } cs
      | .ok (some (t, rest)) => readTokens (r.push t ']') rest
  | '\x7b' :: cs => readTokens r.openGroup cs
  | '\x7d' :: cs =>
    match r.closeGroup? with
    | none => .error .unopenedGroup
    | some r => readTokens r cs
  | ',' :: cs => readTokens r.comma cs
  | '\\' :: [] => .error .danglingEscape
  | '\\' :: c :: cs => readTokens (r.push (.literal c) c) cs
  | c :: cs => readTokens (r.push (.literal c) c) cs
termination_by cs.length
decreasing_by
  all_goals simp only [List.length_cons, List.length_nil]
  all_goals try omega
  have := charClass_length _h
  omega

def slash : UInt8 := 0x2F

def restsUntil (stop : UInt8 → Bool) : List UInt8 → List (List UInt8)
  | [] => [[]]
  | b :: bs => (b :: bs) :: if stop b then [] else restsUntil stop bs

def restsAfterSlash : List UInt8 → List (List UInt8)
  | [] => []
  | b :: bs => if b = slash then bs :: restsAfterSlash bs else restsAfterSlash bs

/-- A range of characters as ranges of bytes. Of characters that take several bytes, only the last
byte of the low one and the first of the high one bound a range. -/
def byteRanges (range : Char × Char) : List (UInt8 × UInt8) :=
  let low := String.utf8EncodeChar range.1
  let high := String.utf8EncodeChar range.2
  if range.1 = range.2 then low.map fun b => (b, b)
  else
    low.dropLast.map (fun b => (b, b))
      ++ (low.getLast?.bind fun l => high.head?.map fun h => (l, h)).toList
      ++ high.tail.map fun b => (b, b)

def restAfter (passes : UInt8 → Bool) : List UInt8 → List (List UInt8)
  | [] => []
  | b :: bs => if passes b then [bs] else []

mutual

/-- The rests that a token can leave of some bytes. -/
def Token.rests : Token → List UInt8 → List (List UInt8)
  | .literal c, bs => ((String.utf8EncodeChar c).isPrefixOf? bs).toList
  | .anyChar, bs => restAfter (· != slash) bs
  | .anyText, bs => restsUntil (· == slash) bs
  | .leadingPath, bs => bs :: restsAfterSlash bs
  | .innerPath, bs => (restAfter (· == slash) bs).flatMap fun rest => rest :: restsAfterSlash rest
  | .trailingPath, bs => (restAfter (· == slash) bs).flatMap (restsUntil fun _ => false)
  | .oneIn ranges negated, bs =>
    restAfter (fun b =>
      (ranges.flatMap byteRanges).any (fun r => r.1 ≤ b && b ≤ r.2) != negated) bs
  | .oneOf [], bs => [bs]
  | .oneOf (branch :: branches), bs => restsOf branch [bs] ++ restsOfAny branches bs

def restsOf : List Token → List (List UInt8) → List (List UInt8)
  | [], starts => starts
  | t :: ts, starts => restsOf ts (starts.flatMap fun bs => t.rests bs).eraseDups

def restsOfAny : List (List Token) → List UInt8 → List (List UInt8)
  | [], _ => []
  | branch :: branches, bs => restsOf branch [bs] ++ restsOfAny branches bs

end

end PathPattern

structure PathPattern where
  written : String
  tokens : List PathPattern.Token

namespace PathPattern

def ofString (s : String) : Except Fault PathPattern :=
  (readTokens {} s.toList).map fun tokens => ⟨s, tokens⟩

/-- Whether a pattern stands for the whole of a path. Two stars alone stand for every path. -/
def covers (p : PathPattern) (path : String) : Bool :=
  match p.tokens with
  | [.leadingPath] => true
  | tokens => (restsOf tokens [path.toList.flatMap String.utf8EncodeChar]).any List.isEmpty

end PathPattern

end ResourceLint
