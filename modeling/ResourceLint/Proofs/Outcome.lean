import ResourceLint.Log
import Mathlib.Data.List.Forall2

/-!
Outcomes of runs, with the log left aside. A run is sequential: its outcome is that of its first
failing step, or else that of its last. The same holds of a traversal whose steps may fail.
-/

namespace ResourceLint

variable {ε ε' α β : Type}

namespace Run

@[simp] theorem outcome_ofExcept (x : Except ε α) : outcome (ofExcept x) = x := rfl

@[simp] theorem outcome_mapError (f : ε → ε') (x : Run ε α) :
    outcome (mapError f x) = (outcome x).mapError f := rfl

/-- A run goes on with the result of its first step, or stops at its error. -/
theorem outcome_bind (x : Run ε α) (k : α → Run ε β) :
    outcome (x >>= k) = (outcome x).bind fun a => outcome (k a) := by
  obtain ⟨ls, v⟩ := x
  cases v <;> rfl

theorem outcome_bind_ok (x : Run ε α) (k : α → Run ε β) (a : α) (h : outcome x = .ok a) :
    outcome (x >>= k) = outcome (k a) := by
  rw [outcome_bind, h]
  rfl

@[simp] theorem outcome_lift_bind (x : Traced α) (k : α → Run ε β) :
    outcome ((liftM x : Run ε α) >>= k) = outcome (k x.value) :=
  outcome_bind_ok _ k x.value rfl

end Run

theorem bind_eq_ok_iff (x : Except ε α) (k : α → Except ε β) (b : β) :
    x >>= k = .ok b ↔ ∃ a, x = .ok a ∧ k a = .ok b := by
  cases x <;> simp [bind, Except.bind]

/-- A run of two steps succeeds exactly if both succeed. -/
theorem Run.outcome_bind_eq_ok_iff (x : Run ε α) (k : α → Run ε β) (b : β) :
    outcome (x >>= k) = .ok b ↔ ∃ a, outcome x = .ok a ∧ outcome (k a) = .ok b := by
  rw [outcome_bind]
  exact bind_eq_ok_iff (outcome x) _ b

theorem mapError_eq_ok_iff (x : Except ε α) (f : ε → ε') (a : α) :
    x.mapError f = .ok a ↔ x = .ok a := by
  cases x <;> simp [Except.mapError]

/-- A traversal collects the results of its steps in order, or stops at the first step that fails
and has its error. -/
theorem mapM_cases (f : α → Except ε β) (xs : List α) :
    (∃ ys, xs.mapM f = .ok ys ∧ List.Forall₂ (fun x y => f x = .ok y) xs ys) ∨
      ∃ before x after e, xs = before ++ x :: after ∧ (∀ a ∈ before, ∃ b, f a = .ok b) ∧
        f x = .error e ∧ xs.mapM f = .error e := by
  induction xs with
  | nil => exact Or.inl ⟨[], rfl, .nil⟩
  | cons x xs ih =>
    have hstep : (x :: xs).mapM f = (f x).bind fun y => (xs.mapM f).map (y :: ·) := by
      rw [List.mapM_cons]
      rfl
    rcases hx : f x with e | y
    · refine Or.inr ⟨[], x, xs, e, rfl, by simp, hx, ?_⟩
      rw [hstep, hx]
      rfl
    · rcases ih with ⟨ys, hok, hall⟩ | ⟨before, z, after, e, rfl, hbefore, hz, herr⟩
      · refine Or.inl ⟨y :: ys, ?_, .cons hx hall⟩
        rw [hstep, hx, hok]
        rfl
      · refine Or.inr ⟨x :: before, z, after, e, rfl, ?_, hz, ?_⟩
        · intro a ha
          rcases List.mem_cons.1 ha with rfl | ha
          · exact ⟨y, hx⟩
          · exact hbefore a ha
        · rw [hstep, hx, herr]
          rfl

theorem mapM_eq_error_of_first (f : α → Except ε β) (before after : List α) (x : α) (e : ε)
    (hbefore : ∀ a ∈ before, ∃ b, f a = .ok b) (hx : f x = .error e) :
    (before ++ x :: after).mapM f = .error e := by
  induction before with
  | nil =>
    rw [List.nil_append, List.mapM_cons, hx]
    rfl
  | cons a before ih =>
    obtain ⟨b, hb⟩ := hbefore a List.mem_cons_self
    have hrest := ih fun a' ha' => hbefore a' (List.mem_cons_of_mem a ha')
    rw [List.cons_append, List.mapM_cons, hb, hrest]
    rfl

/-- A traversal fails with the error of the first of its steps that fails. -/
theorem mapM_eq_error_iff (f : α → Except ε β) (xs : List α) (e : ε) :
    xs.mapM f = .error e ↔
      ∃ (k : ℕ) (x : α), xs[k]? = some x ∧ f x = .error e ∧
        ∀ j < k, ∀ y, xs[j]? = some y → ∃ b, f y = .ok b := by
  constructor
  · intro h
    rcases mapM_cases f xs with ⟨ys, hok, -⟩ | ⟨before, x, after, e', rfl, hbefore, hx, herr⟩
    · rw [hok] at h
      cases h
    · obtain rfl : e' = e := Except.error.inj (herr.symm.trans h)
      refine ⟨before.length, x, by simp, hx, ?_⟩
      intro j hj y hy
      rw [List.getElem?_append_left hj] at hy
      exact hbefore y (List.mem_of_getElem? hy)
  · intro h
    obtain ⟨k, x, hk, hx, hbefore⟩ := h
    obtain ⟨hlt, hget⟩ := List.getElem?_eq_some_iff.1 hk
    have hsplit : xs = xs.take k ++ x :: xs.drop (k + 1) := by
      rw [← hget, ← List.drop_eq_getElem_cons hlt, List.take_append_drop]
    rw [hsplit]
    apply mapM_eq_error_of_first _ _ _ x e _ hx
    intro a ha
    obtain ⟨j, hj⟩ := List.mem_iff_getElem?.1 ha
    rw [List.getElem?_take] at hj
    split at hj
    · exact hbefore j ‹j < k› a hj
    · cases hj

/-- After steps that succeed, one step more decides how the traversal ends. -/
theorem mapM_concat (f : α → Except ε β) (xs : List α) (ys : List β) (h : xs.mapM f = .ok ys)
    (x : α) : (xs ++ [x]).mapM f = (f x).map fun y => ys ++ [y] := by
  rw [List.mapM_append, h, List.mapM_cons]
  cases f x <;> rfl

/-- A traversal whose steps all succeed collects what they give. -/
theorem mapM_eq_ok_map (f : α → Except ε β) (g : α → β) (xs : List α)
    (h : ∀ x ∈ xs, f x = .ok (g x)) : xs.mapM f = .ok (xs.map g) := by
  induction xs with
  | nil => rfl
  | cons x xs ih =>
    have hrest := ih fun y hy => h y (List.mem_cons_of_mem x hy)
    rw [List.mapM_cons, h x List.mem_cons_self, hrest]
    rfl

theorem exists_mapM_eq_ok (f : α → Except ε β) (xs : List α) (h : ∀ x ∈ xs, ∃ y, f x = .ok y) :
    ∃ ys, xs.mapM f = .ok ys := by
  rcases mapM_cases f xs with ⟨ys, hok, -⟩ | ⟨before, x, after, e, rfl, -, hx, -⟩
  · exact ⟨ys, hok⟩
  · obtain ⟨y, hy⟩ := h x (by simp)
    rw [hx] at hy
    cases hy

theorem forall₂_of_mapM_eq_ok (f : α → Except ε β) (xs : List α) (ys : List β)
    (h : xs.mapM f = .ok ys) : List.Forall₂ (fun x y => f x = .ok y) xs ys := by
  rcases mapM_cases f xs with ⟨ys', hok, hall⟩ | ⟨_, _, _, _, _, _, _, herr⟩
  · rw [hok] at h
    cases h
    exact hall
  · rw [herr] at h
    cases h

/-- Where each item has one partner, a list has one list of partners. -/
theorem forall₂_iff_eq_map {R : α → β → Prop} {f : α → β} (h : ∀ a b, R a b ↔ b = f a)
    (xs : List α) (ys : List β) : List.Forall₂ R xs ys ↔ ys = xs.map f := by
  have hpartner : R = fun a b => f a = b := by
    funext a b
    exact propext ((h a b).trans eq_comm)
  rw [hpartner, ← List.forall₂_map_left_iff, List.forall₂_eq_eq_eq]
  exact eq_comm

/-- What stands on the left of paired lists has a partner. -/
theorem exists_of_forall₂_of_mem {R : α → β → Prop} {xs : List α} {ys : List β}
    (h : List.Forall₂ R xs ys) : ∀ x ∈ xs, ∃ y, R x y := by
  induction h with
  | nil => simp
  | @cons x y xs ys hx _ ih =>
    intro a ha
    rcases List.mem_cons.1 ha with rfl | ha
    · exact ⟨y, hx⟩
    · exact ih a ha

theorem exists_eq_ok_of_mapM_eq_ok (f : α → Except ε β) (xs : List α) (ys : List β)
    (h : xs.mapM f = .ok ys) : ∀ x ∈ xs, ∃ y, f x = .ok y :=
  exists_of_forall₂_of_mem (forall₂_of_mapM_eq_ok f xs ys h)

end ResourceLint
