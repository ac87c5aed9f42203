/-!
Glob patterns and their syntax errors. A pattern is a sequence of tokens; a position counts
characters from zero.
-/

namespace ResourceLint.Glob

inductive ClassItem where
  | single (c : Char)
  | range (low high : Char)
  deriving DecidableEq, Repr

inductive Token where
  | literal (c : Char)
  /-- Any one character. -/
  | anyChar
  /-- Any text. -/
  | anyText
  /-- Nothing, any text that ends just after a slash, or all that is left. -/
  | anyPath
  | within (items : List ClassItem)
  | outside (items : List ClassItem)
  deriving DecidableEq, Repr

inductive Fault where
  /-- More than two stars in a row. -/
  | starRun
  /-- Two stars that are not a path component by themselves. -/
  | loosePath
  /-- A class that is empty or not closed. -/
  | badClass
  deriving DecidableEq, Repr

structure PatternError where
  position : Nat
  fault : Fault
  deriving DecidableEq, Repr

namespace PatternError

def faultText : Fault → String
  | .starRun => "wildcards are either regular `*` or recursive `**`"
  | .loosePath => "recursive wildcards must form a single path component"
  | .badClass => "invalid range pattern"

def message (e : PatternError) : String :=
  "Pattern syntax error near position " ++ Nat.repr e.position ++ ": " ++ faultText e.fault

end PatternError

/-- The items of a class body: `x-y` is a range where both ends are present. -/
def classItems : List Char → List ClassItem
  | x :: '-' :: y :: rest => .range x y :: classItems rest
  | x :: rest => .single x :: classItems rest
  | [] => []

/-- The body of a class and what follows its bracket. The first character belongs to the body
whatever it is. -/
def classBody : List Char → Option (List Char × List Char)
  | [] => none
  | first :: rest =>
    match rest.dropWhile (· != ']') with
    | [] => none
    | _ :: after => some (first :: rest.takeWhile (· != ']'), after)

def charClass : List Char → Option (Token × List Char)
  | '!' :: rest => (classBody rest).map fun p => (.outside (classItems p.1), p.2)
  | cs => (classBody cs).map fun p => (.within (classItems p.1), p.2)

theorem classBody_length {cs body rest : List Char} (h : classBody cs = some (body, rest)) :
    rest.length < cs.length := by
  unfold classBody at h
  split at h
  · cases h
  · rename_i first tail
    split at h
    · cases h
    · rename_i c after heq
      cases h
      have := (List.dropWhile_suffix (l := tail) (· != ']')).length_le
      rw [heq] at this
      simp only [List.length_cons] at this ⊢
      omega

theorem charClass_length {cs rest : List Char} {t : Token} (h : charClass cs = some (t, rest)) :
    rest.length < cs.length := by
  unfold charClass at h
  split at h
  · obtain ⟨p, hp, heq⟩ := Option.map_eq_some_iff.1 h
    cases heq
    have := classBody_length hp
    simp only [List.length_cons]
    omega
  · obtain ⟨p, hp, heq⟩ := Option.map_eq_some_iff.1 h
    cases heq
    exact classBody_length hp

/-- The tokens of what is left of a pattern of `total` characters, with the character before it. -/
def tokenize (total : Nat) (previous : Option Char) (cs : List Char) :
    Except PatternError (List Token) :=
  let position := total - cs.length
  match cs with
  | [] => .ok []
  | '?' :: rest => (tokenize total (some '?') rest).map (.anyChar :: ·)
  | '*' :: '*' :: '*' :: _ => .error ⟨position + 2, .starRun⟩
  | '*' :: '*' :: rest =>
    if previous = none ∨ previous = some '/' then
      match rest with
      | [] => .ok [.anyPath]
      | c :: rest =>
        if c = '/' then (tokenize total (some '/') rest).map (.anyPath :: ·)
        else .error ⟨position + 2, .loosePath⟩
    else .error ⟨position - 1, .loosePath⟩
  | '*' :: rest => (tokenize total (some '*') rest).map (.anyText :: ·)
  | '[' :: rest =>
    match _h : charClass rest with
    | none => .error ⟨position, .badClass⟩
    | some (t, rest') => (tokenize total (some ']') rest').map (t :: ·)
  | c :: rest => (tokenize total (some c) rest).map (.literal c :: ·)
termination_by cs.length
decreasing_by
  all_goals simp only [List.length_cons]
  all_goals try omega
  have := charClass_length _h
  omega

structure Pattern where
  tokens : List Token
  deriving DecidableEq, Repr

def Pattern.ofString (s : String) : Except PatternError Pattern :=
  (tokenize s.length none s.toList).map (⟨·⟩)

end ResourceLint.Glob
