import ResourceLint.Text.Ascii

/-!
Reading from the front of a text. A scan takes some characters and returns what they stand for,
with the rest of the text.
-/

namespace ResourceLint.Text

abbrev Scan (α : Type) := List Char → Option (α × List Char)

/-- One or more characters of a class, as many as there are. -/
def spanSome (p : Char → Bool) : Scan (List Char) := fun cs =>
  match cs.takeWhile p with
  | [] => none
  | taken => some (taken, cs.dropWhile p)

def dropChar (c : Char) : List Char → Option (List Char)
  | [] => none
  | d :: cs => if d = c then some cs else none

def dropWord : List Char → List Char → Option (List Char)
  | [], cs => some cs
  | w :: word, cs => (dropChar w cs).bind (dropWord word)

def SomeOf (p : Char → Bool) (cs : List Char) : Prop := cs ≠ [] ∧ ∀ c ∈ cs, p c = true

theorem SomeOf.notMem {p : Char → Bool} {c : Char} {cs : List Char} (h : SomeOf p cs)
    (hc : p c = false) : c ∉ cs := by
  intro hmem
  rw [h.2 c hmem] at hc
  cases hc

theorem stop_of_dropWhile (p : Char → Bool) (cs : List Char) :
    ∀ c ∈ (cs.dropWhile p).head?, p c = false := by
  intro c hc
  have hstop := List.head?_dropWhile_not p cs
  rw [hc] at hstop
  simpa using hstop

section Stop

variable {p : Char → Bool} {taken rest : List Char} (htaken : ∀ c ∈ taken, p c = true)
  (hrest : ∀ c ∈ rest.head?, p c = false)

include htaken hrest

theorem takeWhile_append_of_stop : (taken ++ rest).takeWhile p = taken := by
  rw [List.takeWhile_append_of_pos htaken]
  cases rest with
  | nil => simp
  | cons c rest => simp [hrest c rfl]

theorem dropWhile_append_of_stop : (taken ++ rest).dropWhile p = rest := by
  rw [List.dropWhile_append_of_pos htaken]
  cases rest with
  | nil => simp
  | cons c rest => simp [hrest c rfl]

end Stop

/-- A span takes as many characters of the class as there are. -/
theorem spanSome_eq_some_iff (p : Char → Bool) (cs taken rest : List Char) :
    spanSome p cs = some (taken, rest) ↔
      cs = taken ++ rest ∧ SomeOf p taken ∧ ∀ c ∈ rest.head?, p c = false := by
  constructor
  · intro h
    unfold spanSome at h
    split at h
    · cases h
    · rename_i hne
      cases h
      exact ⟨List.takeWhile_append_dropWhile.symm, ⟨hne, List.all_eq_true.1 List.all_takeWhile⟩,
        stop_of_dropWhile p cs⟩
  · intro h
    obtain ⟨rfl, ⟨hne, htaken⟩, hrest⟩ := h
    rw [spanSome, takeWhile_append_of_stop htaken hrest, dropWhile_append_of_stop htaken hrest]
    split
    · contradiction
    · rfl

theorem dropChar_eq_some_iff (c : Char) (cs rest : List Char) :
    dropChar c cs = some rest ↔ cs = c :: rest := by
  cases cs <;> simp [dropChar]

theorem spanSome_length_lt {p : Char → Bool} {cs taken rest : List Char}
    (h : spanSome p cs = some (taken, rest)) : rest.length < cs.length := by
  have hsum : (cs.takeWhile p).length + (cs.dropWhile p).length = cs.length := by
    rw [← List.length_append, List.takeWhile_append_dropWhile]
  unfold spanSome at h
  split at h
  · cases h
  · rename_i hne
    cases h
    have hpos : 0 < (cs.takeWhile p).length := List.length_pos_iff.2 fun h0 => hne h0
    omega

theorem dropChar_length_lt {c : Char} {cs rest : List Char} (h : dropChar c cs = some rest) :
    rest.length < cs.length := by
  unfold dropChar at h
  split at h
  · cases h
  · split at h
    · cases h
      simp
    · cases h

theorem dropWord_length_le {word cs rest : List Char} (h : dropWord word cs = some rest) :
    rest.length ≤ cs.length := by
  induction word generalizing cs with
  | nil =>
    cases h
    exact Nat.le_refl _
  | cons w word ih =>
    obtain ⟨mid, hw, hrest⟩ := Option.bind_eq_some_iff.1 h
    have h1 := dropChar_length_lt hw
    have h2 := ih hrest
    omega

def fixedDigits (count : Nat) : Scan Nat := fun cs =>
  let digits := cs.take count
  if digits.length = count ∧ digits.all isDigit then some (decimal digits, cs.drop count) else none

variable {α : Type}

/-- One or more items with a separator between each two. An item and its separator take at least
one character, or the reading fails. -/
def separated (sep : Char) (item : Scan α) (cs : List Char) : Option (List α × List Char) :=
  match item cs with
  | none => none
  | some (a, rest) =>
    match dropChar sep rest with
    | none => some ([a], rest)
    | some rest' =>
      if rest'.length < cs.length then
        (separated sep item rest').map fun p => (a :: p.1, p.2)
      else none
termination_by cs.length

end ResourceLint.Text
