import ResourceLint.Proofs.Engine
import Mathlib.Data.List.Induction
import Mathlib.Data.List.Nodup

/-!
A rule set and the history of calls that made it. Its codes are distinct, its rules stand in the
order in which they were added, and a rule is held exactly if it was added and every later selection
lists its code. A linter is therefore refused exactly if two of the rules gathered for it share a
code.
-/

namespace ResourceLint

variable {σ : Type}

/-- What stands at a position of a list with one more item at its end. -/
theorem getElem?_concat_eq_some_iff {α : Type} (xs : List α) (a x : α) (k : ℕ) :
    (xs ++ [a])[k]? = some x ↔ xs[k]? = some x ∨ k = xs.length ∧ a = x := by
  rw [List.getElem?_append]
  split
  · have hne : k ≠ xs.length := by omega
    simp [hne]
  · have hnone : xs[k]? = none := List.getElem?_eq_none (by omega)
    rw [List.getElem?_singleton, hnone]
    split
    · have heq : k = xs.length := by omega
      simp [heq]
    · have hne : k ≠ xs.length := by omega
      simp [hne]

namespace RuleSet

inductive Call (σ : Type) where
  | add (r : Rule σ)
  | select (listed : List String)

inductive Answer where
  | added
  | refused (error : LinterError)
  | unknown (codes : List String)
  deriving DecidableEq, Repr

/-- Makes a call. A set to which a rule cannot be added is kept as it is. -/
def perform (rs : RuleSet σ) : Call σ → Answer × RuleSet σ
  | .add r =>
    match rs.add r with
    | .ok rs' => (.added, rs')
    | .error code => (.refused (.duplicateRule code), rs)
  | .select listed => (.unknown (rs.select listed).1, (rs.select listed).2)

def replay (calls : List (Call σ)) : RuleSet σ :=
  calls.foldl (fun rs call => (rs.perform call).2) {}

theorem replay_concat (calls : List (Call σ)) (call : Call σ) :
    replay (calls ++ [call]) = ((replay calls).perform call).2 := by
  simp [replay, List.foldl_append]

def AddedAt (calls : List (Call σ)) (k : ℕ) (r : Rule σ) : Prop :=
  calls[k]? = some (.add r) ∧ ((replay (calls.take k)).perform (.add r)).1 = .added

/-- The rule was added at a position, and every selection since lists its code. -/
def StandsSince (calls : List (Call σ)) (k : ℕ) (r : Rule σ) : Prop :=
  AddedAt calls k r ∧
    ∀ (j : ℕ) listed, k < j → calls[j]? = some (.select listed) → r.code ∈ listed

section Calls

variable (rs : RuleSet σ)

theorem mem_codes_iff (code : String) : code ∈ rs.codes ↔ ∃ q ∈ rs.rules, q.code = code := by
  simp [codes]

theorem perform_add_of_mem (r : Rule σ) (h : r.code ∈ rs.codes) :
    rs.perform (.add r) = (.refused (.duplicateRule r.code), rs) := by
  simp [perform, add, h]

theorem perform_add_of_not_mem (r : Rule σ) (h : r.code ∉ rs.codes) :
    rs.perform (.add r) = (.added, ⟨rs.rules ++ [r]⟩) := by
  simp [perform, add, h]

/-- A rule is added at the end, or refused because its code is held. -/
theorem perform_add (r : Rule σ) :
    rs.perform (.add r) =
      if ∃ q ∈ rs.rules, q.code = r.code then (.refused (.duplicateRule r.code), rs)
      else (.added, ⟨rs.rules ++ [r]⟩) := by
  by_cases h : r.code ∈ rs.codes
  · rw [if_pos ((mem_codes_iff rs r.code).1 h), perform_add_of_mem rs r h]
  · rw [if_neg (mt (mem_codes_iff rs r.code).2 h), perform_add_of_not_mem rs r h]

theorem perform_add_eq_added_iff (r : Rule σ) :
    (rs.perform (.add r)).1 = .added ↔ r.code ∉ rs.codes := by
  by_cases h : r.code ∈ rs.codes
  · simp [perform_add_of_mem rs r h, h]
  · simp [perform_add_of_not_mem rs r h, h]

end Calls

theorem AddedAt.lt_length {calls : List (Call σ)} {k : ℕ} {r : Rule σ} (h : AddedAt calls k r) :
    k < calls.length :=
  (List.getElem?_eq_some_iff.1 h.1).1

section History

variable (calls : List (Call σ)) (k : ℕ) (r : Rule σ)

theorem addedAt_concat_iff (call : Call σ) :
    AddedAt (calls ++ [call]) k r ↔ AddedAt calls k r ∨
      k = calls.length ∧ call = .add r ∧ r.code ∉ (replay calls).codes := by
  unfold AddedAt
  rw [getElem?_concat_eq_some_iff, or_and_right, and_assoc]
  apply or_congr
  · apply and_congr_right
    intro hk
    have hlt := (List.getElem?_eq_some_iff.1 hk).1
    rw [List.take_append_of_le_length (Nat.le_of_lt hlt)]
  · apply and_congr_right
    rintro rfl
    rw [List.take_append_of_le_length (Nat.le_refl _), List.take_length, perform_add_eq_added_iff]

/-- A rule that is added stands since then, and those that stand go on. -/
theorem standsSince_concat_add_iff (q : Rule σ) :
    StandsSince (calls ++ [.add q]) k r ↔ StandsSince calls k r ∨
      k = calls.length ∧ q = r ∧ r.code ∉ (replay calls).codes := by
  have hselect : ∀ (j : ℕ) listed, (calls ++ [.add q])[j]? = some (.select listed) ↔
      calls[j]? = some (.select listed) := by
    intro j listed
    rw [getElem?_concat_eq_some_iff]
    simp
  simp only [StandsSince, addedAt_concat_iff, hselect, or_and_right, Call.add.injEq]
  apply or_congr_right
  apply and_iff_left_of_imp
  intro hadded j listed hj hlisted
  have hlt := (List.getElem?_eq_some_iff.1 hlisted).1
  omega

/-- A selection ends the standing of the rules that it does not list. -/
theorem standsSince_concat_select_iff (listed : List String) :
    StandsSince (calls ++ [.select listed]) k r ↔ StandsSince calls k r ∧ r.code ∈ listed := by
  have hadded : AddedAt (calls ++ [.select listed]) k r ↔ AddedAt calls k r := by
    rw [addedAt_concat_iff]
    simp
  unfold StandsSince
  rw [hadded]
  constructor
  · intro h
    refine ⟨⟨h.1, ?_⟩, ?_⟩
    · intro j listed' hj hlisted
      exact h.2 j listed' hj ((getElem?_concat_eq_some_iff _ _ _ _).2 (Or.inl hlisted))
    · exact h.2 calls.length listed h.1.lt_length (by simp)
  · intro h
    refine ⟨h.1.1, ?_⟩
    intro j listed' hj hlisted
    rcases (getElem?_concat_eq_some_iff _ _ _ _).1 hlisted with hlisted | ⟨-, heq⟩
    · exact h.1.2 j listed' hj hlisted
    · cases heq
      exact h.2

end History

/-- Rules with the positions of the calls that added them: all that stand after a history, in the
order in which they were added. -/
structure Chronicle (calls : List (Call σ)) (held : List (ℕ × Rule σ)) : Prop where
  mem_iff : ∀ k r, (k, r) ∈ held ↔ StandsSince calls k r
  ordered : held.Pairwise fun a b => a.1 < b.1

namespace Chronicle

variable {calls : List (Call σ)} {held : List (ℕ × Rule σ)}

theorem add (h : Chronicle calls held) (r : Rule σ) (hfree : r.code ∉ (replay calls).codes) :
    Chronicle (calls ++ [.add r]) (held ++ [(calls.length, r)]) where
  mem_iff k q := by
    rw [standsSince_concat_add_iff, List.mem_append, h.mem_iff, List.mem_singleton, Prod.mk.injEq]
    apply or_congr_right
    apply and_congr_right
    intro _
    constructor
    · rintro rfl
      exact ⟨rfl, hfree⟩
    · intro hq
      exact hq.1.symm
  ordered := by
    rw [List.pairwise_append]
    refine ⟨h.ordered, List.pairwise_singleton _ _, ?_⟩
    intro a ha b hb
    obtain rfl := List.mem_singleton.1 hb
    exact ((h.mem_iff a.1 a.2).1 ha).1.lt_length

theorem add_duplicate (h : Chronicle calls held) (r : Rule σ)
    (htaken : r.code ∈ (replay calls).codes) : Chronicle (calls ++ [.add r]) held where
  mem_iff k q := by
    rw [standsSince_concat_add_iff, h.mem_iff, or_iff_left]
    rintro ⟨-, rfl, hfree⟩
    exact hfree htaken
  ordered := h.ordered

theorem select (h : Chronicle calls held) (listed : List String) :
    Chronicle (calls ++ [.select listed]) (held.filter (·.2.code ∈ listed)) where
  mem_iff k r := by
    rw [standsSince_concat_select_iff, List.mem_filter, h.mem_iff, decide_eq_true_eq]
  ordered := h.ordered.filter _

end Chronicle

structure Follows (calls : List (Call σ)) (rs : RuleSet σ) : Prop where
  nodup : rs.codes.Nodup
  held : ∃ held, Chronicle calls held ∧ held.map (·.2) = rs.rules

theorem Follows.perform {calls : List (Call σ)} (h : Follows calls (replay calls))
    (call : Call σ) : Follows (calls ++ [call]) ((replay calls).perform call).2 := by
  obtain ⟨held, hheld, hrules⟩ := h.held
  cases call with
  | add r =>
    by_cases hmem : r.code ∈ (replay calls).codes
    · rw [perform_add_of_mem _ r hmem]
      exact ⟨h.nodup, held, hheld.add_duplicate r hmem, hrules⟩
    · rw [perform_add_of_not_mem _ r hmem]
      refine ⟨?_, held ++ [(calls.length, r)], hheld.add r hmem, by simp [hrules]⟩
      rw [codes, List.map_append, List.map_singleton, ← List.concat_eq_append]
      exact List.Nodup.concat hmem h.nodup
  | select listed =>
    refine ⟨h.nodup.sublist (List.filter_sublist.map _), _, hheld.select listed, ?_⟩
    change _ = (replay calls).rules.filter _
    rw [← hrules, List.filter_map]
    rfl

theorem follows_replay (calls : List (Call σ)) : Follows calls (replay calls) := by
  induction calls using List.reverseRecOn with
  | nil =>
    refine ⟨List.nodup_nil, [], ⟨?_, .nil⟩, rfl⟩
    intro k r
    simp [StandsSince, AddedAt]
  | append_singleton calls call ih =>
    rw [replay_concat]
    exact ih.perform call

/-- The listed codes that no held rule has are returned as often as they are listed. -/
theorem count_unknown (rs : RuleSet σ) (listed : List String) (code : String) :
    (rs.select listed).1.count code =
      if ∃ q ∈ rs.rules, q.code = code then 0 else listed.count code := by
  by_cases h : code ∈ rs.codes
  · rw [if_pos ((mem_codes_iff rs code).1 h), List.count_eq_zero]
    simp [RuleSet.select, h]
  · rw [if_neg (mt (mem_codes_iff rs code).2 h), RuleSet.select,
      List.count_filter (by simpa using h)]

/-- A selection keeps the listed rules in their order and returns the codes that no rule has. -/
theorem perform_select (rs : RuleSet σ) (listed : List String) :
    ∃ unknown kept, rs.perform (.select listed) = (.unknown unknown, kept) ∧
      kept.rules.Sublist rs.rules ∧
      (∀ r, r ∈ kept.rules ↔ r ∈ rs.rules ∧ r.code ∈ listed) ∧
      unknown.Sublist listed ∧
      ∀ code, unknown.count code =
        if ∃ q ∈ rs.rules, q.code = code then 0 else listed.count code := by
  refine ⟨_, _, rfl, List.filter_sublist, ?_, List.filter_sublist, count_unknown rs listed⟩
  intro r
  change r ∈ List.filter _ _ ↔ _
  rw [List.mem_filter, decide_eq_true_eq]

end RuleSet

/-- The code that is the first to be repeated, by a rule whose predecessors have distinct codes. -/
def FirstRepeat (rules : List (Rule σ)) (code : String) : Prop :=
  ∃ before r after, rules = before ++ r :: after ∧ (before.map (·.code)).Nodup ∧
    r.code ∈ before.map (·.code) ∧ r.code = code

theorem exists_firstRepeat (rules : List (Rule σ)) (h : ¬ (rules.map (·.code)).Nodup) :
    ∃ code, FirstRepeat rules code := by
  induction rules using List.reverseRecOn with
  | nil => exact absurd List.nodup_nil h
  | append_singleton rules r ih =>
    by_cases hrules : (rules.map (·.code)).Nodup
    · have hmem : r.code ∈ rules.map (·.code) := by
        by_contra hfree
        apply h
        rw [List.map_append, List.map_singleton, ← List.concat_eq_append]
        exact List.Nodup.concat hfree hrules
      exact ⟨r.code, rules, r, [], rfl, hrules, hmem, rfl⟩
    · obtain ⟨code, before, q, after, rfl, hbefore, hmem, hcode⟩ := ih hrules
      exact ⟨code, before, q, after ++ [r], by simp, hbefore, hmem, hcode⟩

theorem FirstRepeat.addAll_eq {rules : List (Rule σ)} {code : String}
    (h : FirstRepeat rules code) : RuleSet.addAll {} rules = .error code := by
  obtain ⟨before, r, after, rfl, hbefore, hmem, rfl⟩ := h
  have hfirst : RuleSet.addAll {} before = .ok ⟨before⟩ :=
    RuleSet.addAll_of_nodup {} before (by simpa [RuleSet.codes] using hbefore)
  have hnext : RuleSet.add ⟨before⟩ r = .error r.code := if_pos hmem
  unfold RuleSet.addAll at hfirst ⊢
  rw [List.foldlM_append, hfirst]
  change List.foldlM RuleSet.add ⟨before⟩ (r :: after) = _
  rw [List.foldlM_cons, hnext]
  rfl

theorem addAll_eq_error_iff (rules : List (Rule σ)) (code : String) :
    RuleSet.addAll {} rules = .error code ↔ FirstRepeat rules code := by
  constructor
  · intro h
    by_cases hnodup : (rules.map (·.code)).Nodup
    · rw [RuleSet.addAll_of_nodup {} rules (by simpa [RuleSet.codes] using hnodup)] at h
      cases h
    · obtain ⟨code', hrepeat⟩ := exists_firstRepeat rules hnodup
      rw [hrepeat.addAll_eq] at h
      cases h
      exact hrepeat
  · exact FirstRepeat.addAll_eq

theorem exists_firstRepeat_iff (rules : List (Rule σ)) :
    (∃ code, FirstRepeat rules code) ↔ ¬ (rules.map (·.code)).Nodup := by
  constructor
  · rintro ⟨code, before, r, after, rfl, -, hmem, -⟩ hnodup
    rw [List.map_append, List.map_cons, List.nodup_append] at hnodup
    exact hnodup.2.2 r.code hmem r.code List.mem_cons_self rfl
  · exact exists_firstRepeat rules

inductive Supply (σ : Type) where
  | rule (r : Rule σ)
  | ruleSet (rs : RuleSet σ)

namespace Supply

def rules : Supply σ → List (Rule σ)
  | .rule r => [r]
  | .ruleSet rs => rs.rules

def enter (p : LinterPlan σ) : Supply σ → LinterPlan σ
  | .rule r => p.addRule r
  | .ruleSet rs => p.addRuleSet rs

theorem enter_eq (p : LinterPlan σ) (x : Supply σ) :
    x.enter p = { p with rules := p.rules ++ x.rules } := by
  cases x <;> rfl

end Supply

namespace LinterPlan

/-- A plan gathers the rules that it is handed, in order. -/
theorem foldl_enter (p : LinterPlan σ) (supplies : List (Supply σ)) :
    supplies.foldl Supply.enter p =
      { p with rules := p.rules ++ supplies.flatMap Supply.rules } := by
  induction supplies generalizing p with
  | nil => simp
  | cons x supplies ih =>
    rw [List.foldl_cons, ih, x.enter_eq]
    simp

theorem build_eq_duplicateRule_iff (p : LinterPlan σ) (code : String) :
    p.build = .error (.duplicateRule code) ↔ RuleSet.addAll {} p.rules = .error code := by
  unfold build
  cases RuleSet.addAll {} p.rules with
  | error code' => simp [Except.mapError, bind, Except.bind]
  | ok rules =>
    -- What can go wrong from here on is an exclusion.
    cases p.config.exclusions with
    | error e => simp [Except.mapError, bind, Except.bind]
    | ok es =>
      cases Exclusion.compile p.exclude with
      | error e => simp [Except.mapError, bind, Except.bind]
      | ok further => simp [Except.mapError, bind, Except.bind, pure, Except.pure]

/-- A plan is refused for the code that is the first to be repeated among the rules that it was
handed, before its exclusions are read. -/
theorem build_supplied_eq_duplicateRule_iff (supplies : List (Supply σ)) (exclude : List String)
    (config : Config) (code : String) :
    (supplies.foldl Supply.enter { exclude := exclude, config := config }).build =
        .error (.duplicateRule code) ↔
      FirstRepeat (supplies.flatMap Supply.rules) code := by
  rw [build_eq_duplicateRule_iff, foldl_enter, addAll_eq_error_iff]
  rfl

end LinterPlan

namespace RuleSet

/-- A rule set after any history of calls. Its codes are distinct and its rules are those that
stand, in the order in which they were added. A rule is refused exactly if its code is held, and
changes nothing then. A selection keeps the held rules that it lists, in their order, and returns
the listed codes that no held rule has. So a linter is refused for a repeated code exactly if two of
the rules gathered for it share one, with the first that is repeated, whatever its exclusions
are. -/
theorem replay_follows_calls (calls : List (Call σ)) :
    let rs := replay calls
    rs.codes.Nodup ∧
      (∃ held : List (ℕ × Rule σ), held.map (·.2) = rs.rules ∧
        held.Pairwise (fun a b => a.1 < b.1) ∧ ∀ k r, (k, r) ∈ held ↔ StandsSince calls k r) ∧
      (∀ r, rs.perform (.add r) =
        if ∃ q ∈ rs.rules, q.code = r.code then (.refused (.duplicateRule r.code), rs)
        else (.added, ⟨rs.rules ++ [r]⟩)) ∧
      (∀ listed, ∃ unknown kept, rs.perform (.select listed) = (.unknown unknown, kept) ∧
        kept.rules.Sublist rs.rules ∧
        (∀ r, r ∈ kept.rules ↔ r ∈ rs.rules ∧ r.code ∈ listed) ∧
        unknown.Sublist listed ∧
        ∀ code, unknown.count code =
          if ∃ q ∈ rs.rules, q.code = code then 0 else listed.count code) ∧
      ∀ (supplies : List (Supply σ)) (exclude : List String) (config : Config),
        let plan := supplies.foldl Supply.enter { exclude := exclude, config := config }
        let gathered := supplies.flatMap Supply.rules
        ((∃ code, plan.build = .error (.duplicateRule code)) ↔
            ¬ (gathered.map (·.code)).Nodup) ∧
          ∀ code, plan.build = .error (.duplicateRule code) ↔ FirstRepeat gathered code := by
  intro rs
  have hfollows := follows_replay calls
  obtain ⟨held, hheld, hrules⟩ := hfollows.held
  refine ⟨hfollows.nodup, ⟨held, hrules, hheld.ordered, hheld.mem_iff⟩, perform_add rs,
    perform_select rs, ?_⟩
  intro supplies exclude config plan gathered
  have hrefused := LinterPlan.build_supplied_eq_duplicateRule_iff supplies exclude config
  refine ⟨?_, hrefused⟩
  rw [← exists_firstRepeat_iff]
  exact exists_congr hrefused

end RuleSet

end ResourceLint
