/-!
Loops that end. A loop is what one turn does in a state: it gives a result, or it goes on from
another state. Nothing in that keeps a loop from going on forever; one whose turns all lower a
number ends, and no later than that number says.
-/

namespace ResourceLint

inductive Turn (σ ρ : Type) where
  | done (result : ρ)
  | next (state : σ)

variable {σ ρ : Type}

def Turn.resume (value : σ → ρ) : Turn σ ρ → ρ
  | .done r => r
  | .next s => value s

inductive EndsAfter (turn : σ → Turn σ ρ) : Nat → σ → ρ → Prop
  | done {s : σ} {r : ρ} (h : turn s = .done r) : EndsAfter turn 1 s r
  | next {n : Nat} {s s' : σ} {r : ρ} (h : turn s = .next s') (rest : EndsAfter turn n s' r) :
      EndsAfter turn (n + 1) s r

/-- Every turn that goes on lowers `left`, in whatever state it is taken. -/
def Lowers (turn : σ → Turn σ ρ) (left : σ → Nat) : Prop :=
  ∀ s s', turn s = .next s' → left s' < left s

/-- Since its turns lower `left`, the loop from `start` ends with `result`. -/
structure EndsBy (turn : σ → Turn σ ρ) (left : σ → Nat) (start : σ) (result : ρ) : Prop where
  lowers : Lowers turn left
  ends : ∃ n ≤ left start + 1, EndsAfter turn n start result

theorem Lowers.exists_endsAfter_of_lt {turn : σ → Turn σ ρ} {left : σ → Nat}
    (lowers : Lowers turn left) {m : Nat} {s : σ} (hs : left s < m) :
    ∃ n r, n ≤ left s + 1 ∧ EndsAfter turn n s r := by
  induction m generalizing s with
  | zero => exact absurd hs (Nat.not_lt_zero _)
  | succ m ih =>
    cases hturn : turn s with
    | done r => exact ⟨1, r, by omega, .done hturn⟩
    | next s' =>
      have hlt : left s' < left s := lowers s s' hturn
      have hs' : left s' < m := by omega
      obtain ⟨n, r, hn, hends⟩ := ih hs'
      exact ⟨n + 1, r, by omega, .next hturn hends⟩

theorem Lowers.exists_endsAfter {turn : σ → Turn σ ρ} {left : σ → Nat} (lowers : Lowers turn left)
    (s : σ) : ∃ n r, n ≤ left s + 1 ∧ EndsAfter turn n s r :=
  lowers.exists_endsAfter_of_lt (Nat.lt_succ_self (left s))

/-- On states that a turn never leaves, a function that each turn keeps is what the loop gives. -/
theorem EndsAfter.eq_value_of_inv {turn : σ → Turn σ ρ} {inv : σ → Prop} {value : σ → ρ}
    (stays : ∀ s s', inv s → turn s = .next s' → inv s')
    (unrolls : ∀ s, inv s → value s = (turn s).resume value) {n : Nat} {s : σ} {r : ρ}
    (h : EndsAfter turn n s r) (hs : inv s) : r = value s := by
  induction h with
  | done hturn => rw [unrolls _ hs, hturn, Turn.resume]
  | next hturn _ ih => rw [unrolls _ hs, hturn, Turn.resume, ih (stays _ _ hs hturn)]

theorem EndsAfter.eq_value {turn : σ → Turn σ ρ} {value : σ → ρ}
    (unrolls : ∀ s, value s = (turn s).resume value) {n : Nat} {s : σ} {r : ρ}
    (h : EndsAfter turn n s r) : r = value s :=
  h.eq_value_of_inv (fun _ _ _ _ => trivial) (fun s _ => unrolls s) trivial

/-- A loop that ends, and with no other result than `result`. -/
theorem Lowers.endsBy {turn : σ → Turn σ ρ} {left : σ → Nat} (lowers : Lowers turn left)
    {start : σ} {result : ρ} (hresult : ∀ n r, EndsAfter turn n start r → r = result) :
    EndsBy turn left start result := by
  obtain ⟨n, r, hn, hends⟩ := lowers.exists_endsAfter start
  have hr : r = result := hresult n r hends
  exact ⟨lowers, n, hn, hr ▸ hends⟩

end ResourceLint
