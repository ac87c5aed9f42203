import Mathlib
import ResourceLint.Text.Ascii

/-!
Letters and digits. Their classes and case maps are those of the library, so its laws of case hold
here. A letter or digit takes one byte, so a word of them is cut at a byte wherever it is cut at a
character.
-/

namespace ResourceLint.Text

theorem isLower_eq (c : Char) : isLower c = c.isLower := by
  simp [isLower, Char.isLower, Char.le_def]

theorem isUpper_eq (c : Char) : isUpper c = c.isUpper := by
  simp [isUpper, Char.isUpper, Char.le_def]

theorem toLower_eq (c : Char) : toLower c = c.toLower := by
  rw [toLower, isUpper_eq]
  split
  · next h => exact (Char.toLower_eq_of_isUpper h).symm
  · next h => exact (Char.toLower_eq_of_not_isUpper h).symm

theorem toUpper_eq (c : Char) : toUpper c = c.toUpper := by
  rw [toUpper, isLower_eq]
  split
  · next h => exact (Char.toUpper_eq_of_isLower h).symm
  · next h => exact (Char.toUpper_eq_of_not_isLower h).symm

@[simp] theorem isUpper_toLower (c : Char) : isUpper (toLower c) = false := by
  rw [isUpper_eq, toLower_eq, Char.isUpper_toLower_eq_false]

@[simp] theorem toLower_toLower (c : Char) : toLower (toLower c) = toLower c := by
  simp [toLower_eq]

@[simp] theorem toLower_toUpper (c : Char) : toLower (toUpper c) = toLower c := by
  simp [toLower_eq, toUpper_eq]

theorem isUpper_of_lower_or_digit {c : Char} (h : (isLower c || isDigit c) = true) :
    isUpper c = false := by
  rw [← Bool.not_eq_true]
  simp only [isLower, isUpper, isDigit, Bool.or_eq_true, Bool.and_eq_true, decide_eq_true_eq,
    Char.le_def, UInt32.le_iff_toNat_le, Char.reduceVal, UInt32.reduceToNat] at h ⊢
  omega

/-- What is put in capitals can be put back, if it held none before. -/
theorem map_toLower_map_toUpper {cs : List Char} (h : ∀ c ∈ cs, isUpper c = false) :
    (cs.map toUpper).map toLower = cs := by
  have hback : ∀ c ∈ cs, (toLower ∘ toUpper) c = id c := by
    intro c hc
    rw [Function.comp_apply, toLower_toUpper, toLower, h c hc]
    rfl
  rw [List.map_map, List.map_congr_left hback, List.map_id]

theorem isAlphanumeric_of_isUpper {c : Char} (h : isUpper c = true) : isAlphanumeric c = true := by
  simp [isAlphanumeric, h]

@[simp] theorem isAlphanumeric_toLower (c : Char) :
    isAlphanumeric (toLower c) = isAlphanumeric c := by
  cases h : isUpper c with
  | false => rw [toLower, h]; rfl
  | true =>
    have hlower : isLower (toLower c) = true := by
      rw [isUpper_eq] at h
      rw [isLower_eq, toLower_eq, Char.isLower_toLower_eq_isAlpha, Char.isAlpha, h, Bool.true_or]
    simp [isAlphanumeric, h, hlower]

@[simp] theorem isAlphanumeric_toUpper (c : Char) :
    isAlphanumeric (toUpper c) = isAlphanumeric c := by
  cases h : isLower c with
  | false => rw [toUpper, h]; rfl
  | true =>
    have hupper : isUpper (toUpper c) = true := by
      rw [isLower_eq] at h
      rw [isUpper_eq, toUpper_eq, Char.isUpper_toUpper_eq_isAlpha, Char.isAlpha, h, Bool.or_true]
    simp [isAlphanumeric, h, hupper]

/-- A letter or digit takes one byte. -/
theorem utf8Size_of_isAlphanumeric {c : Char} (h : isAlphanumeric c = true) : c.utf8Size = 1 := by
  rw [Char.utf8Size_eq_one_iff]
  simp only [isAlphanumeric, isLower, isUpper, isDigit, Bool.or_eq_true, Bool.and_eq_true,
    decide_eq_true_eq, Char.le_def, UInt32.le_iff_toNat_le, Char.reduceVal,
    UInt32.reduceToNat] at h ⊢
  omega

theorem utf8ByteSize_of_alphanumeric (cs : List Char) (h : ∀ c ∈ cs, isAlphanumeric c = true) :
    (String.ofList cs).utf8ByteSize = cs.length := by
  induction cs with
  | nil => rfl
  | cons c cs ih =>
    have hc := utf8Size_of_isAlphanumeric (h c List.mem_cons_self)
    have hcs := ih fun d hd => h d (List.mem_cons_of_mem c hd)
    rw [String.ofList_cons, String.utf8ByteSize_append, String.utf8ByteSize_singleton, hc, hcs,
      List.length_cons, Nat.add_comm]

/-- A word of letters and digits can be cut at every byte, and the bytes before the cut are as many
characters. -/
theorem exists_pos_splits {cs : List Char} (h : ∀ c ∈ cs, isAlphanumeric c = true) {n : ℕ}
    (hn : n ≤ cs.length) :
    ∃ p : (String.ofList cs).Pos, p.offset.byteIdx = n ∧
      p.Splits (String.ofList (cs.take n)) (String.ofList (cs.drop n)) := by
  have hparts : String.ofList cs = String.ofList (cs.take n) ++ String.ofList (cs.drop n) := by
    rw [← String.ofList_append, List.take_append_drop]
  have hsize : (String.ofList (cs.take n)).utf8ByteSize = n := by
    rw [utf8ByteSize_of_alphanumeric _ fun c hc => h c (List.mem_of_mem_take hc),
      List.length_take_of_le hn]
  have hvalid : (String.ofList (cs.take n)).rawEndPos.IsValid (String.ofList cs) :=
    String.Pos.Raw.isValid_iff_exists_append.2 ⟨_, _, hparts, rfl⟩
  exact ⟨String.pos _ _ hvalid, hsize, hparts, rfl⟩

def letters (s : String) : List Char := (s.toList.filter isAlphanumeric).map toLower

theorem letters_append (s t : String) : letters (s ++ t) = letters s ++ letters t := by
  simp [letters]

end ResourceLint.Text
