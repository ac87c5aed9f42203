/-!
The measure of a walk over named things: how many of the names it may visit are still unseen.
Marking a new name lowers it, and marking more names never raises it.
-/

namespace ResourceLint

variable {α : Type} [DecidableEq α]

def unseen (names seen : List α) : Nat := names.countP (· ∉ seen)

theorem unseen_le_length (names seen : List α) : unseen names seen ≤ names.length :=
  List.countP_le_length

theorem unseen_le_of_subset {names seen seen' : List α} (h : ∀ a ∈ seen, a ∈ seen') :
    unseen names seen' ≤ unseen names seen := by
  refine List.countP_mono_left ?_
  intro a _ ha
  simp only [decide_eq_true_eq] at ha ⊢
  exact fun hs => ha (h a hs)

theorem unseen_cons_lt {names seen : List α} {a : α} (ha : a ∈ names) (hs : a ∉ seen) :
    unseen names (a :: seen) < unseen names seen := by
  obtain ⟨before, after, rfl⟩ := List.append_of_mem ha
  have hb : unseen before (a :: seen) ≤ unseen before seen :=
    unseen_le_of_subset fun _ => List.mem_cons_of_mem a
  have hc : unseen after (a :: seen) ≤ unseen after seen :=
    unseen_le_of_subset fun _ => List.mem_cons_of_mem a
  unfold unseen at hb hc ⊢
  simp only [List.countP_append, List.countP_cons]
  simp only [hs, List.mem_cons, true_or, not_true_eq_false, not_false_eq_true, decide_true,
    decide_false, if_true]
  simp only [List.mem_cons] at hb hc
  simp only [Bool.false_eq_true, if_false]
  omega

/-- The same with any name marked, where a name beyond `names` makes for one more. -/
theorem unseen_cons_lt_add {names seen : List α} {a : α} (hs : a ∉ seen) :
    unseen names (a :: seen) < unseen names seen + (if a ∈ names then 0 else 1) := by
  by_cases ha : a ∈ names
  · rw [if_pos ha]
    exact unseen_cons_lt ha hs
  · rw [if_neg ha]
    exact Nat.lt_succ_of_le (unseen_le_of_subset fun _ => List.mem_cons_of_mem a)

end ResourceLint
