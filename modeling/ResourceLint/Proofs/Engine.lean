import ResourceLint.Linter
import ResourceLint.Proofs.Outcome

/-!
What the engine reports when no rule breaks off. A rule that records checks finds one violation for
each check that does not hold; a run over subjects collects, subject by subject and rule by rule,
what each rule finds, less what is excluded.
-/

namespace ResourceLint

namespace Assessment

@[simp] theorem record_violation (a : Assessment) (c d : Check) :
    (a.record c).2.violation d = a.violation d := by
  unfold record
  split <;> rfl

/-- Recording checks tells whether all hold, and adds those that do not, in order. -/
theorem recordAll_eq (a : Assessment) (cs : List Check) :
    a.recordAll cs = (cs.all (·.holds),
      { a with violations := a.violations ++ (cs.filter (!·.holds)).map a.violation }) := by
  induction cs generalizing a with
  | nil => simp [recordAll]
  | cons c cs ih =>
    have hsame : (a.record c).2.violation = a.violation := funext (record_violation a c)
    rw [recordAll, ih, hsame]
    cases h : c.holds <;> simp [record, h]

/-- Recording checks leaves what was recorded and adds the failed checks in order. -/
theorem recordAll_violations (a : Assessment) (cs : List Check) :
    (a.recordAll cs).2.violations = a.violations ++ (cs.filter (!·.holds)).map a.violation := by
  rw [recordAll_eq]

end Assessment

variable {σ : Type}

namespace Rule

variable [Subject σ]

/-- The violations of a rule on a subject, with none where it breaks off. -/
def found (r : Rule σ) (s : σ) : List Violation := (r.evaluate s).toOption.getD []

def Completes (r : Rule σ) (s : σ) : Prop := r.evaluate s = .ok (r.found s)

def violationAt (r : Rule σ) (s : σ) (scope : String) (extra : Option String) : Violation :=
  ⟨r.code, r.severity, Subject.fqn s, scope, r.message, extra⟩

theorem evaluate_ofChecks (code message : String) (severity : Severity) (checks : σ → List Check)
    (s : σ) :
    (ofChecks code message severity checks).evaluate s =
      .ok (((checks s).filter (!·.holds)).map fun c =>
        (ofChecks code message severity checks).violationAt s c.scope c.extra) := by
  change Except.ok (((ofChecks code message severity checks).start s).recordAll
    (checks s)).2.violations = _
  rw [Assessment.recordAll_violations]
  rfl

theorem completes_ofChecks (code message : String) (severity : Severity)
    (checks : σ → List Check) (s : σ) : (ofChecks code message severity checks).Completes s := by
  unfold Completes found
  rw [evaluate_ofChecks]
  rfl

theorem found_ofChecks (code message : String) (severity : Severity) (checks : σ → List Check)
    (s : σ) :
    (ofChecks code message severity checks).found s =
      ((checks s).filter (!·.holds)).map fun c =>
        (ofChecks code message severity checks).violationAt s c.scope c.extra := by
  unfold found
  rw [evaluate_ofChecks]
  rfl

end Rule

/-- Rules whose codes differ from each other and from those held are all added, in order. -/
theorem RuleSet.addAll_of_nodup (rs : RuleSet σ) (rules : List (Rule σ))
    (h : (rs.codes ++ rules.map (·.code)).Nodup) : rs.addAll rules = .ok ⟨rs.rules ++ rules⟩ := by
  induction rules generalizing rs with
  | nil => simp [addAll, pure, Except.pure]
  | cons r rules ih =>
    have hfree : r.code ∉ rs.codes := by
      intro hmem
      exact (List.nodup_append.1 h).2.2 r.code hmem r.code (by simp) rfl
    have hcodes : codes ⟨rs.rules ++ [r]⟩ = rs.codes ++ [r.code] := by simp [codes]
    have hrest := ih ⟨rs.rules ++ [r]⟩ (by rw [hcodes]; simpa using h)
    unfold addAll at hrest ⊢
    rw [List.foldlM_cons, add, if_neg hfree]
    exact hrest.trans (by simp)

/-- Items that are kept or dropped together with their source. -/
theorem filter_flatMap_of_source {α β : Type} (p : α → Bool) (q : β → Bool) (f : α → List β)
    (xs : List α) (h : ∀ a ∈ xs, ∀ b ∈ f a, q b = p a) :
    (xs.flatMap f).filter q = (xs.filter p).flatMap f := by
  induction xs with
  | nil => rfl
  | cons a xs ih =>
    have hrest := ih fun a' ha' => h a' (List.mem_cons_of_mem a ha')
    have hfirst : (f a).filter q = (f a).filter fun _ => p a :=
      List.filter_congr (h a List.mem_cons_self)
    rw [List.flatMap_cons, List.filter_append, hrest, hfirst]
    cases hp : p a <;> simp [hp]

namespace Linter

variable [Subject σ]

def contribution (l : Linter σ) (s : σ) (r : Rule σ) : List Violation := l.kept r.code (r.found s)

theorem outcome_runRule (l : Linter σ) (s : σ) (r : Rule σ) (h : r.Completes s) :
    (l.runRule s r).outcome = .ok (l.contribution s r) := by
  unfold runRule
  rw [h]
  rfl

theorem outcome_runRules (l : Linter σ) (s : σ) (rs : List (Rule σ))
    (h : ∀ r ∈ rs, r.Completes s) :
    (l.runRules s rs).outcome = .ok (rs.flatMap (l.contribution s)) := by
  induction rs with
  | nil => rfl
  | cons r rs ih =>
    have hfirst := outcome_runRule l s r (h r List.mem_cons_self)
    have hrest := ih fun r' hr' => h r' (List.mem_cons_of_mem r hr')
    rw [runRules, Run.outcome_bind_ok _ _ _ hfirst, Run.outcome_bind_ok _ _ _ hrest]
    rfl

theorem outcome_runSubjects (l : Linter σ) (ss : List σ)
    (h : ∀ s ∈ ss, ∀ r ∈ l.enabledRules, r.Completes s) :
    (l.runSubjects ss).outcome =
      .ok (ss.flatMap fun s => l.enabledRules.flatMap (l.contribution s)) := by
  induction ss with
  | nil => rfl
  | cons s ss ih =>
    have hfirst := outcome_runRules l s l.enabledRules (h s List.mem_cons_self)
    have hrest := ih fun s' hs' => h s' (List.mem_cons_of_mem s hs')
    rw [runSubjects, Run.outcome_lift_bind, Run.outcome_bind_ok _ _ _ hfirst,
      Run.outcome_bind_ok _ _ _ hrest]
    rfl

/-- A run in which no rule breaks off reports what every enabled rule contributes. -/
theorem outcome_run (l : Linter σ) (ss : List σ)
    (h : ∀ s ∈ ss, ∀ r ∈ l.enabledRules, r.Completes s) :
    (l.run ss).outcome =
      .ok ⟨ss.flatMap fun s => l.enabledRules.flatMap (l.contribution s), ss.length⟩ := by
  rw [run, Run.outcome_lift_bind, Run.outcome_lift_bind,
    Run.outcome_bind_ok _ _ _ (outcome_runSubjects l ss h)]
  rfl

end Linter

end ResourceLint
