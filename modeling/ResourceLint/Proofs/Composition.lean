import ResourceLint.Proofs.Engine
import Mathlib.Data.Prod.Lex
import Mathlib.Order.Bounds.Basic

/-!
Runs over arbitrary rules, some of which may break off. A run on two lists of subjects is the run on
the first and then the run on the second. It ends at the first place where an enabled rule breaks
off, subject by subject and for each subject rule by rule, and reports nothing then. So what a run
comes to is what the attempts that it makes come to, of which only the last can fail.
-/

namespace ResourceLint

namespace Rule

variable {σ : Type} [Subject σ]

/-- A rule either works through its checks on a subject or breaks off. -/
theorem completes_iff_forall_ne_error (r : Rule σ) (s : σ) :
    r.Completes s ↔ ∀ reason, r.evaluate s ≠ .error reason := by
  unfold Completes found
  cases r.evaluate s <;> simp [Except.toOption]

end Rule

namespace Linter

variable {σ : Type} [Subject σ]

/-- The enabled rule at the second position breaks off on the subject at the first, and the error
names both. -/
def BreaksAt (l : Linter σ) (ss : List σ) (p : ℕ ×ₗ ℕ) (e : LinterError) : Prop :=
  ∃ s r reason, ss[(ofLex p).1]? = some s ∧ l.rules.rules[(ofLex p).2]? = some r ∧
    l.config.isEnabled r.code ∧ r.evaluate s = .error reason ∧
    e = .ruleBroke r.code (Subject.fqn s) reason

/-- The places where a run would break off, by subject first and then by rule. -/
def breaks (l : Linter σ) (ss : List σ) : Set (ℕ ×ₗ ℕ) := {p | ∃ e, l.BreaksAt ss p e}

def fullReport (l : Linter σ) (ss : List σ) : Report :=
  ⟨ss.flatMap fun s => l.enabledRules.flatMap (l.contribution s), ss.length⟩

/-- What a rule comes to on a subject; nothing comes of a disabled one. -/
def verdict (l : Linter σ) (s : σ) (r : Rule σ) : Except LinterError (List Violation) :=
  if l.config.isEnabled r.code then (l.runRule s r).outcome else .ok []

def verdicts (l : Linter σ) (s : σ) : Except LinterError (List Violation) :=
  (l.rules.rules.mapM (l.verdict s)).map List.flatten

theorem outcome_runRule_eq_error_iff (l : Linter σ) (s : σ) (r : Rule σ) (e : LinterError) :
    (l.runRule s r).outcome = .error e ↔
      ∃ reason, r.evaluate s = .error reason ∧ e = .ruleBroke r.code (Subject.fqn s) reason := by
  unfold runRule
  cases h : r.evaluate s with
  | error reason =>
    change Except.error (LinterError.ruleBroke r.code (Subject.fqn s) reason) = .error e ↔ _
    simp [eq_comm]
  | ok vs =>
    change Except.ok (l.kept r.code vs) = .error e ↔ _
    simp

theorem verdict_eq_error_iff (l : Linter σ) (s : σ) (r : Rule σ) (e : LinterError) :
    l.verdict s r = .error e ↔ l.config.isEnabled r.code ∧
      ∃ reason, r.evaluate s = .error reason ∧ e = .ruleBroke r.code (Subject.fqn s) reason := by
  unfold verdict
  by_cases h : l.config.isEnabled r.code
  · simp [h, outcome_runRule_eq_error_iff]
  · simp [h]

theorem outcome_runRules_enabled (l : Linter σ) (s : σ) (rs : List (Rule σ)) :
    (l.runRules s (rs.filter fun r => l.config.isEnabled r.code)).outcome =
      (rs.mapM (l.verdict s)).map List.flatten := by
  induction rs with
  | nil => rfl
  | cons r rs ih =>
    rw [List.mapM_cons]
    by_cases h : l.config.isEnabled r.code
    · rw [List.filter_cons, if_pos h, runRules, Run.outcome_bind, verdict, if_pos h]
      cases (l.runRule s r).outcome with
      | error e => rfl
      | ok first =>
        change Run.outcome (_ >>= _) = _
        rw [Run.outcome_bind, ih]
        cases rs.mapM (l.verdict s) <;> rfl
    · rw [List.filter_cons, if_neg h, ih, verdict, if_neg h]
      cases rs.mapM (l.verdict s) <;> rfl

theorem outcome_runSubjects_eq (l : Linter σ) (ss : List σ) :
    (l.runSubjects ss).outcome = (ss.mapM l.verdicts).map List.flatten := by
  induction ss with
  | nil => rfl
  | cons s ss ih =>
    have hfirst : (l.runRules s l.enabledRules).outcome = l.verdicts s :=
      outcome_runRules_enabled l s l.rules.rules
    rw [runSubjects, Run.outcome_lift_bind, Run.outcome_bind, hfirst, List.mapM_cons]
    cases l.verdicts s with
    | error e => rfl
    | ok first =>
      change Run.outcome (_ >>= _) = _
      rw [Run.outcome_bind, ih]
      cases ss.mapM l.verdicts <;> rfl

/-- A run is one traversal of its subjects. -/
theorem outcome_run_eq (l : Linter σ) (ss : List σ) :
    (l.run ss).outcome = (ss.mapM l.verdicts).map fun found => ⟨found.flatten, ss.length⟩ := by
  rw [run, Run.outcome_lift_bind, Run.outcome_lift_bind, Run.outcome_bind, outcome_runSubjects_eq]
  cases ss.mapM l.verdicts <;> rfl

theorem outcome_run_append (l : Linter σ) (xs ys : List σ) :
    (l.run (xs ++ ys)).outcome =
      (l.run xs).outcome.bind fun r => (l.run ys).outcome.map r.append := by
  rw [outcome_run_eq, outcome_run_eq, outcome_run_eq, List.mapM_append, List.length_append]
  cases xs.mapM l.verdicts with
  | error e => rfl
  | ok first =>
    cases ys.mapM l.verdicts with
    | error e => rfl
    | ok others =>
      change Except.ok (Report.mk (first ++ others).flatten _) = _
      rw [List.flatten_append]
      rfl

theorem outcome_run_eq_error_iff_mapM (l : Linter σ) (ss : List σ) (e : LinterError) :
    (l.run ss).outcome = .error e ↔ ss.mapM l.verdicts = .error e := by
  rw [outcome_run_eq]
  cases ss.mapM l.verdicts <;> simp [Except.map]

theorem verdicts_eq_error_iff (l : Linter σ) (s : σ) (e : LinterError) :
    l.verdicts s = .error e ↔ l.rules.rules.mapM (l.verdict s) = .error e := by
  unfold verdicts
  cases l.rules.rules.mapM (l.verdict s) <;> simp [Except.map]

/-- A subject on which all rules come to something has no rule that breaks off. -/
theorem verdict_ne_error_of_verdicts_eq_ok {l : Linter σ} {s : σ} {vs : List Violation}
    (h : l.verdicts s = .ok vs) {r : Rule σ} (hr : r ∈ l.rules.rules) (e : LinterError) :
    l.verdict s r ≠ .error e := by
  intro he
  unfold verdicts at h
  cases hrules : l.rules.rules.mapM (l.verdict s) with
  | error e' =>
    rw [hrules] at h
    cases h
  | ok parts =>
    obtain ⟨ws, hws⟩ := exists_eq_ok_of_mapM_eq_ok _ _ _ hrules r hr
    rw [he] at hws
    cases hws

theorem breaksAt_iff (l : Linter σ) (ss : List σ) (i j : ℕ) (e : LinterError) :
    l.BreaksAt ss (toLex (i, j)) e ↔
      ∃ s r, ss[i]? = some s ∧ l.rules.rules[j]? = some r ∧ l.verdict s r = .error e := by
  simp only [BreaksAt, verdict_eq_error_iff, ofLex_toLex]
  constructor
  · intro h
    obtain ⟨s, r, reason, hs, hr, henabled, hbreak, he⟩ := h
    exact ⟨s, r, hs, hr, henabled, reason, hbreak, he⟩
  · intro h
    obtain ⟨s, r, hs, hr, henabled, reason, hbreak, he⟩ := h
    exact ⟨s, r, reason, hs, hr, henabled, hbreak, he⟩

/-- The error of a run is that of the least place where it would break off. -/
theorem exists_isLeast_breaks (l : Linter σ) (ss : List σ) (e : LinterError)
    (h : (l.run ss).outcome = .error e) : ∃ p, IsLeast (l.breaks ss) p ∧ l.BreaksAt ss p e := by
  rw [outcome_run_eq_error_iff_mapM, mapM_eq_error_iff] at h
  obtain ⟨i, s, hs, hfails, hearlier⟩ := h
  rw [verdicts_eq_error_iff, mapM_eq_error_iff] at hfails
  obtain ⟨j, r, hr, hbreak, hbefore⟩ := hfails
  have hat : l.BreaksAt ss (toLex (i, j)) e := (breaksAt_iff l ss i j e).2 ⟨s, r, hs, hr, hbreak⟩
  refine ⟨toLex (i, j), ⟨⟨e, hat⟩, ?_⟩, hat⟩
  -- An earlier place has an earlier subject, or the same subject and an earlier rule.
  intro q hq
  obtain ⟨e', hq⟩ := hq
  obtain ⟨⟨i', j'⟩, rfl⟩ := toLex.surjective q
  obtain ⟨s', r', hs', hr', hbreak'⟩ := (breaksAt_iff l ss i' j' e').1 hq
  have hi : ¬ i' < i := by
    intro hlt
    obtain ⟨vs, hvs⟩ := hearlier i' hlt s' hs'
    exact verdict_ne_error_of_verdicts_eq_ok hvs (List.mem_of_getElem? hr') e' hbreak'
  have hj : i' = i → ¬ j' < j := by
    intro heq hlt
    obtain rfl : s' = s := by
      rw [heq] at hs'
      exact Option.some.inj (hs'.symm.trans hs)
    obtain ⟨vs, hvs⟩ := hbefore j' hlt r' hr'
    rw [hbreak'] at hvs
    cases hvs
  rw [Prod.Lex.toLex_le_toLex]
  simp only
  by_cases heq : i' = i
  · have := hj heq
    omega
  · omega

theorem breaks_eq_empty_iff (l : Linter σ) (ss : List σ) :
    l.breaks ss = ∅ ↔ ∀ s ∈ ss, ∀ r ∈ l.enabledRules, r.Completes s := by
  simp only [Rule.completes_iff_forall_ne_error, Set.eq_empty_iff_forall_notMem]
  constructor
  · intro h s hs r hr reason hbreak
    obtain ⟨hmem, henabled⟩ := List.mem_filter.1 hr
    obtain ⟨i, hi⟩ := List.mem_iff_getElem?.1 hs
    obtain ⟨j, hj⟩ := List.mem_iff_getElem?.1 hmem
    exact h (toLex (i, j)) ⟨_, s, r, reason, hi, hj, henabled, hbreak, rfl⟩
  · intro h p hp
    obtain ⟨e, s, r, reason, hs, hr, henabled, hbreak, -⟩ := hp
    have hmem : r ∈ l.enabledRules := List.mem_filter.2 ⟨List.mem_of_getElem? hr, henabled⟩
    exact h s (List.mem_of_getElem? hs) r hmem reason hbreak

/-- The error at a place is determined by the place. -/
theorem BreaksAt.unique {l : Linter σ} {ss : List σ} {p : ℕ ×ₗ ℕ} {e e' : LinterError}
    (h : l.BreaksAt ss p e) (h' : l.BreaksAt ss p e') : e = e' := by
  obtain ⟨⟨i, j⟩, rfl⟩ := toLex.surjective p
  obtain ⟨s, r, hs, hr, hbreak⟩ := (breaksAt_iff l ss i j e).1 h
  obtain ⟨s', r', hs', hr', hbreak'⟩ := (breaksAt_iff l ss i j e').1 h'
  obtain rfl : s = s' := Option.some.inj (hs.symm.trans hs')
  obtain rfl : r = r' := Option.some.inj (hr.symm.trans hr')
  exact Except.error.inj (hbreak.symm.trans hbreak')

theorem breaks_eq_empty_of_outcome_eq_ok {l : Linter σ} {ss : List σ} {report : Report}
    (h : (l.run ss).outcome = .ok report) : l.breaks ss = ∅ := by
  rw [outcome_run_eq] at h
  cases hall : ss.mapM l.verdicts with
  | error e =>
    rw [hall] at h
    cases h
  | ok found =>
    rw [Set.eq_empty_iff_forall_notMem]
    intro p hp
    obtain ⟨e, hat⟩ := hp
    obtain ⟨⟨i, j⟩, rfl⟩ := toLex.surjective p
    obtain ⟨s, r, hs, hr, hbreak⟩ := (breaksAt_iff l ss i j e).1 hat
    obtain ⟨vs, hvs⟩ := exists_eq_ok_of_mapM_eq_ok _ _ _ hall s (List.mem_of_getElem? hs)
    exact verdict_ne_error_of_verdicts_eq_ok hvs (List.mem_of_getElem? hr) e hbreak

/-- A run fails exactly if it would break off somewhere, and its error is that of the least such
place. -/
theorem outcome_run_eq_error_iff (l : Linter σ) (ss : List σ) (e : LinterError) :
    (l.run ss).outcome = .error e ↔ ∃ p, IsLeast (l.breaks ss) p ∧ l.BreaksAt ss p e := by
  constructor
  · exact exists_isLeast_breaks l ss e
  · intro h
    obtain ⟨p, hp, hat⟩ := h
    cases hrun : (l.run ss).outcome with
    | error e' =>
      obtain ⟨p', hp', hat'⟩ := exists_isLeast_breaks l ss e' hrun
      obtain rfl := hp.unique hp'
      rw [hat.unique hat']
    | ok report =>
      have hmem : p ∈ (∅ : Set (ℕ ×ₗ ℕ)) := breaks_eq_empty_of_outcome_eq_ok hrun ▸ hp.1
      cases hmem

theorem outcome_run_eq_ok_iff (l : Linter σ) (ss : List σ) (report : Report) :
    (l.run ss).outcome = .ok report ↔ l.breaks ss = ∅ ∧ report = l.fullReport ss := by
  have hfull : l.breaks ss = ∅ → (l.run ss).outcome = .ok (l.fullReport ss) :=
    fun h => outcome_run l ss ((breaks_eq_empty_iff l ss).1 h)
  constructor
  · intro h
    have hempty := breaks_eq_empty_of_outcome_eq_ok h
    exact ⟨hempty, Except.ok.inj (h.symm.trans (hfull hempty))⟩
  · intro h
    rw [h.2]
    exact hfull h.1

theorem runRules_withRules (l : Linter σ) (rules : RuleSet σ) (s : σ) (rs : List (Rule σ)) :
    runRules { l with rules := rules } s rs = l.runRules s rs := by
  induction rs with
  | nil => rfl
  | cons r rs ih =>
    rw [runRules, runRules, ih]
    rfl

theorem runSubjects_withRules (l : Linter σ) (rules : RuleSet σ)
    (h : enabledRules { l with rules := rules } = l.enabledRules) (ss : List σ) :
    runSubjects { l with rules := rules } ss = l.runSubjects ss := by
  induction ss with
  | nil => rfl
  | cons s ss ih => rw [runSubjects, runSubjects, ih, h, runRules_withRules]

/-- The rules that are not enabled can be exchanged for others that are not. -/
theorem outcome_run_withRules (l : Linter σ) (rules : RuleSet σ)
    (h : enabledRules { l with rules := rules } = l.enabledRules) (ss : List σ) :
    (run { l with rules := rules } ss).outcome = (l.run ss).outcome := by
  rw [run, run, Run.outcome_lift_bind, Run.outcome_lift_bind, Run.outcome_lift_bind,
    Run.outcome_lift_bind, runSubjects_withRules l rules h]

def calls (l : Linter σ) (ss : List σ) : List (σ × Rule σ) :=
  (ss.zip (l.attempts ss)).flatMap fun a => a.2.map (a.1, ·)

theorem calls_cons (l : Linter σ) (s : σ) (ss : List σ) :
    l.calls (s :: ss) =
      (attempted s l.enabledRules).map (s, ·) ++ if l.breaksOn s then [] else l.calls ss := by
  have hnone : (ss.zip (ss.map fun _ => ([] : List (Rule σ)))).flatMap
      (fun a => a.2.map (a.1, ·)) = [] := by
    rw [List.flatMap_eq_nil_iff]
    intro a ha
    obtain ⟨rest, -, hrest⟩ := List.mem_map.1 (List.of_mem_zip ha).2
    rw [← hrest, List.map_nil]
  unfold calls
  rw [attempts, List.zip_cons_cons, List.flatMap_cons]
  by_cases h : l.breaksOn s
  · rw [if_pos h, if_pos h, hnone]
  · rw [if_neg h, if_neg h]

theorem breaksOn_eq_false_iff (l : Linter σ) (s : σ) :
    l.breaksOn s = false ↔ ∀ r ∈ l.enabledRules, r.Completes s := by
  simp only [breaksOn, List.any_eq_false, Rule.Completes, Rule.found]
  refine forall₂_congr fun r _ => ?_
  cases r.evaluate s <;> simp [Except.toOption]

/-- Of the rules that are put to a subject only the last can break off. -/
theorem completes_of_mem_dropLast_attempted (s : σ) (rs : List (Rule σ)) :
    ∀ r ∈ (attempted s rs).dropLast, r.Completes s := by
  induction rs with
  | nil => simp [attempted]
  | cons r rs ih =>
    intro q hq
    cases h : r.evaluate s with
    | error reason => simp [attempted, h] at hq
    | ok vs =>
      have hfirst : r.Completes s := by simp [Rule.Completes, Rule.found, h, Except.toOption]
      simp only [attempted, h] at hq
      cases hrest : attempted s rs with
      | nil => simp [hrest] at hq
      | cons r' rs' =>
        rw [hrest, List.dropLast_cons_of_ne_nil (List.cons_ne_nil r' rs')] at hq
        rcases List.mem_cons.1 hq with rfl | hq
        · exact hfirst
        · exact ih q (hrest ▸ hq)

theorem outcome_runRules_attempted (l : Linter σ) (s : σ) (rs : List (Rule σ)) :
    (l.runRules s rs).outcome =
      (((attempted s rs).map (s, ·)).mapM fun c => (l.runRule c.1 c.2).outcome).map
        List.flatten := by
  induction rs with
  | nil => rfl
  | cons r rs ih =>
    rw [runRules, Run.outcome_bind]
    cases h : r.evaluate s with
    | error reason =>
      have hfirst := (outcome_runRule_eq_error_iff l s r _).2 ⟨reason, h, rfl⟩
      simp only [attempted, h, List.map_cons, List.mapM_cons, hfirst]
      rfl
    | ok vs =>
      have hcompletes : r.Completes s := by simp [Rule.Completes, Rule.found, h, Except.toOption]
      simp only [attempted, h, List.map_cons, List.mapM_cons, outcome_runRule l s r hcompletes]
      change Run.outcome (_ >>= _) = _
      rw [Run.outcome_bind, ih]
      cases ((attempted s rs).map (s, ·)).mapM fun c => (l.runRule c.1 c.2).outcome <;> rfl

theorem attempted_subset (s : σ) (rs : List (Rule σ)) : attempted s rs ⊆ rs := by
  induction rs with
  | nil => simp [attempted]
  | cons r rs ih =>
    cases h : r.evaluate s with
    | error reason => simp [attempted, h]
    | ok vs =>
      simp only [attempted, h]
      exact List.cons_subset_cons r ih

theorem breaksOn_eq_false_of_outcome_eq_ok {l : Linter σ} {s : σ} {vs : List Violation}
    (h : (l.runRules s l.enabledRules).outcome = .ok vs) : l.breaksOn s = false := by
  have hverdicts : l.verdicts s = .ok vs :=
    (outcome_runRules_enabled l s l.rules.rules).symm.trans h
  rw [breaksOn_eq_false_iff]
  intro r hr
  obtain ⟨hmem, henabled⟩ := List.mem_filter.1 hr
  rw [Rule.completes_iff_forall_ne_error]
  intro reason hbreak
  exact verdict_ne_error_of_verdicts_eq_ok hverdicts hmem _
    ((verdict_eq_error_iff l s r _).2 ⟨henabled, reason, hbreak, rfl⟩)

theorem outcome_runSubjects_calls (l : Linter σ) (ss : List σ) :
    (l.runSubjects ss).outcome =
      ((l.calls ss).mapM fun c => (l.runRule c.1 c.2).outcome).map List.flatten := by
  induction ss with
  | nil => rfl
  | cons s ss ih =>
    have hfirst := outcome_runRules_attempted l s l.enabledRules
    rw [runSubjects, Run.outcome_lift_bind, Run.outcome_bind, hfirst, calls_cons, List.mapM_append]
    cases hfound : ((attempted s l.enabledRules).map (s, ·)).mapM
        fun c => (l.runRule c.1 c.2).outcome with
    | error e => rfl
    | ok found =>
      rw [hfound] at hfirst
      rw [if_neg (by simp [breaksOn_eq_false_of_outcome_eq_ok hfirst])]
      change Run.outcome (_ >>= _) = _
      rw [Run.outcome_bind, ih]
      cases (l.calls ss).mapM fun c => (l.runRule c.1 c.2).outcome with
      | error e => rfl
      | ok others =>
        change Except.ok (found.flatten ++ others.flatten) = .ok (found ++ others).flatten
        rw [List.flatten_append]

/-- Of the rules that a run puts to its subjects only the last can break off. -/
theorem completes_of_mem_dropLast_calls (l : Linter σ) (ss : List σ) :
    ∀ c ∈ (l.calls ss).dropLast, c.2.Completes c.1 := by
  induction ss with
  | nil => simp [calls]
  | cons s ss ih =>
    intro c hc
    rw [calls_cons] at hc
    by_cases hbreaks : l.breaksOn s
    · rw [if_pos hbreaks, List.append_nil, ← List.map_dropLast] at hc
      obtain ⟨r, hr, rfl⟩ := List.mem_map.1 hc
      exact completes_of_mem_dropLast_attempted s _ r hr
    · rw [if_neg hbreaks] at hc
      have hall := (breaksOn_eq_false_iff l s).1 (by simpa using hbreaks)
      have hfirst : ∀ c ∈ (attempted s l.enabledRules).map (s, ·), c.2.Completes c.1 := by
        intro c hc
        obtain ⟨r, hr, rfl⟩ := List.mem_map.1 hc
        exact hall r (attempted_subset s _ hr)
      by_cases hrest : l.calls ss = []
      · rw [hrest, List.append_nil] at hc
        exact hfirst c (List.dropLast_subset _ hc)
      · rw [List.dropLast_append_of_ne_nil hrest] at hc
        rcases List.mem_append.1 hc with hc | hc
        · exact hfirst c hc
        · exact ih c hc

/-- A run comes to what the rules come to that it puts to its subjects, and of these only the last
can break off. -/
theorem run_eq_calls (l : Linter σ) (ss : List σ) :
    ((l.run ss).outcome = ((l.calls ss).mapM fun c => (l.runRule c.1 c.2).outcome).map
        fun found => ⟨found.flatten, ss.length⟩) ∧
      ∀ c ∈ (l.calls ss).dropLast, c.2.Completes c.1 := by
  refine ⟨?_, completes_of_mem_dropLast_calls l ss⟩
  rw [run, Run.outcome_lift_bind, Run.outcome_lift_bind, Run.outcome_bind,
    outcome_runSubjects_calls]
  cases (l.calls ss).mapM fun c => (l.runRule c.1 c.2).outcome <;> rfl

/-- A run goes through its subjects one after another. On two lists of them it has the error of the
first that fails, or both reports. It ends at the least place where an enabled rule breaks off, and
otherwise every enabled rule contributes to the report on every subject. Rules that are not enabled
have no part in it. -/
theorem run_sequential (l : Linter σ) :
    (∀ xs ys, (l.run (xs ++ ys)).outcome =
        (l.run xs).outcome.bind fun r => (l.run ys).outcome.map r.append) ∧
      (∀ ss e, (l.run ss).outcome = .error e ↔
        ∃ p, IsLeast (l.breaks ss) p ∧ l.BreaksAt ss p e) ∧
      (∀ ss report, (l.run ss).outcome = .ok report ↔
        l.breaks ss = ∅ ∧ report = l.fullReport ss) ∧
      ∀ rules ss, enabledRules { l with rules := rules } = l.enabledRules →
        (run { l with rules := rules } ss).outcome = (l.run ss).outcome := by
  refine ⟨outcome_run_append l, outcome_run_eq_error_iff l, outcome_run_eq_ok_iff l, ?_⟩
  intro rules ss h
  exact outcome_run_withRules l rules h ss

end Linter

namespace Sample

structure Note where
  fqn : String

instance : Subject Note := ⟨Note.fqn⟩

def breaking (code name : String) : Rule Note where
  code := code
  message := ""
  body s a := if s.fqn = name then .error "torn" else .ok a

/-- The first rule is turned off. -/
def notes : Linter Note where
  rules := ⟨[breaking "off" "n.A", breaking "late" "n.C", breaking "early" "n.B"]⟩
  config := { rules := .ofList [("off", { enabled := some false })] }
  exclusions := []

def tornNotes : List Note := [⟨"n.A"⟩, ⟨"n.B"⟩, ⟨"n.C"⟩]

/-- The last rule breaks off on the second note, before the rule ahead of it would on the third. So
it does where the rule that is turned off is left out. -/
theorem second_note_torn :
    (∃ p, IsLeast (notes.breaks tornNotes) p ∧
      notes.BreaksAt tornNotes p (.ruleBroke "early" "n.B" "torn")) ∧
      (Linter.run { notes with rules := ⟨notes.rules.rules.tail⟩ } tornNotes).outcome =
        .error (.ruleBroke "early" "n.B" "torn") := by
  have hrun : (notes.run tornNotes).outcome = .error (.ruleBroke "early" "n.B" "torn") := by
    decide +kernel
  obtain ⟨-, hfails, -, hdisabled⟩ := notes.run_sequential
  have hleftOut : Linter.enabledRules { notes with rules := ⟨notes.rules.rules.tail⟩ } =
      notes.enabledRules := rfl
  exact ⟨(hfails _ _).1 hrun, (hdisabled _ _ hleftOut).trans hrun⟩

end Sample

end ResourceLint
