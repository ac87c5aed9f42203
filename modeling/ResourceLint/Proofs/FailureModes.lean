import ResourceLint.Proofs.LintOutcome
import ResourceLint.Proofs.SchemaSearch

/-!
How a run can end. It stops at the first checked class that wraps no schema entry, or else at the
first written exclusion with a half that is no pattern, and otherwise it goes through all checked
classes. The selection, the rule settings and the failing severity have no part in this.
-/

namespace ResourceLint

namespace Exclusion

def Readable (w : String) : Prop :=
  (∃ p, Glob.Pattern.ofString (halves w).1 = .ok p) ∧
    ∃ p, Glob.Pattern.ofString (halves w).2 = .ok p

inductive Flaw (w : String) (e : Glob.PatternError) : Prop
  | code (h : Glob.Pattern.ofString (halves w).1 = .error e)
  | scope (hcode : ∃ p, Glob.Pattern.ofString (halves w).1 = .ok p)
      (h : Glob.Pattern.ofString (halves w).2 = .error e)

theorem readable_iff (w : String) : Readable w ↔ ∃ e, ofString w = .ok e := by
  unfold Readable ofString
  cases Glob.Pattern.ofString (halves w).1 with
  | error e => simp [bind, Except.bind]
  | ok p =>
    cases Glob.Pattern.ofString (halves w).2 with
    | error e => simp [bind, Except.bind]
    | ok q => simp [bind, Except.bind, pure, Except.pure]

theorem flaw_iff (w : String) (e : Glob.PatternError) : Flaw w e ↔ ofString w = .error e := by
  unfold ofString
  constructor
  · intro hflaw
    rcases hflaw with h | ⟨⟨p, hp⟩, h⟩
    · rw [h]
      rfl
    · rw [hp, h]
      rfl
  · intro h
    cases hcode : Glob.Pattern.ofString (halves w).1 with
    | error e' =>
      rw [hcode] at h
      cases h
      exact .code hcode
    | ok p =>
      cases hscope : Glob.Pattern.ofString (halves w).2 with
      | error e' =>
        rw [hcode, hscope] at h
        cases h
        exact .scope ⟨p, hcode⟩ hscope
      | ok q =>
        rw [hcode, hscope] at h
        cases h

end Exclusion

/-- How a run ends: with an error, or with the number of classes it has checked. -/
inductive Ending (t : TypeTable) (cat : Catalog) (f : Framework) (exclude : List String) :
    Except LintError Nat → Prop
  | unresolved {before after : List ClassDecl} {c : ClassDecl}
      (hsplit : t.checkedClasses f = before ++ c :: after)
      (hbefore : ∀ d ∈ before, ∃ s, t.Wraps cat d s) (hc : ¬ ∃ s, t.Wraps cat c s) :
      Ending t cat f exclude
        (.error (.schemaNotFound ⟨c.fqn, (Naming.inferredType? c.fqn).getD "<none>"⟩))
  | unreadable {before after : List String} {w : String} {e : Glob.PatternError}
      (hresolved : ∀ c ∈ t.checkedClasses f, ∃ s, t.Wraps cat c s)
      (hsplit : exclude = before ++ w :: after) (hbefore : ∀ w' ∈ before, Exclusion.Readable w')
      (hw : Exclusion.Flaw w e) :
      Ending t cat f exclude (.error (.linter (.badConfig (.badExclusion w e))))
  | completed (hresolved : ∀ c ∈ t.checkedClasses f, ∃ s, t.Wraps cat c s)
      (hreadable : ∀ w ∈ exclude, Exclusion.Readable w) :
      Ending t cat f exclude (.ok (t.checkedClasses f).length)

/-- A checked class is resolved exactly if it wraps a schema entry. -/
theorem exists_resolve_eq_ok_iff {t : TypeTable} {f : Framework} {c : ClassDecl} (cat : Catalog)
    (hc : c ∈ t.checkedClasses f) :
    (∃ r, t.resolve cat f c = .ok r) ↔ ∃ s, t.Wraps cat c s := by
  have hwraps := TypeTable.wraps_iff cat (TypeTable.class?_of_mem_checkedClasses hc)
  simp only [TypeTable.resolve_eq_ok_iff, hwraps]
  constructor
  · intro h
    obtain ⟨r, s, hs, -⟩ := h
    exact ⟨s, hs⟩
  · intro h
    obtain ⟨s, hs⟩ := h
    exact ⟨t.resourceOf f c s, s, hs, rfl⟩

theorem resolve_eq_error_iff {t : TypeTable} {f : Framework} {c : ClassDecl} (cat : Catalog)
    (hc : c ∈ t.checkedClasses f) (e : SchemaNotFound) :
    t.resolve cat f c = .error e ↔ (¬ ∃ s, t.Wraps cat c s) ∧ e = .ofClass c := by
  rw [← exists_resolve_eq_ok_iff cat hc]
  unfold TypeTable.resolve
  cases t.schemaFor? cat c <;> simp [eq_comm]

theorem mem_of_checkedClasses_eq {t : TypeTable} {f : Framework} {before after : List ClassDecl}
    {c : ClassDecl} (hsplit : t.checkedClasses f = before ++ c :: after) :
    (∀ d ∈ before, d ∈ t.checkedClasses f) ∧ c ∈ t.checkedClasses f := by
  rw [hsplit]
  refine ⟨?_, by simp⟩
  intro d hd
  exact List.mem_append_left _ hd

/-- A written exclusion is read on its own, and its error names it. -/
theorem exists_read_eq_ok_iff (w : String) :
    (∃ e, (Exclusion.ofString w).mapError (ConfigError.badExclusion w) = .ok e) ↔
      Exclusion.Readable w := by
  rw [Exclusion.readable_iff]
  exact exists_congr fun e => mapError_eq_ok_iff _ _ e

theorem read_eq_error_iff (w : String) (x : ConfigError) :
    (Exclusion.ofString w).mapError (ConfigError.badExclusion w) = .error x ↔
      ∃ e, Exclusion.Flaw w e ∧ x = .badExclusion w e := by
  simp only [Exclusion.flaw_iff]
  cases Exclusion.ofString w <;> simp [Except.mapError, eq_comm]

section Run

variable (t : TypeTable) (cat : Catalog) (config : Config) (selected : Option (List String))

def lintEnd : Except LintError Nat :=
  (lint t cat config selected).outcome.map (·.resourcesChecked)

theorem lintEnd_of_unresolved {e : SchemaNotFound}
    (h : (t.checkedClasses config.framework).mapM (t.resolve cat config.framework) = .error e) :
    lintEnd t cat config selected = .error (.schemaNotFound e) := by
  rw [lintEnd, outcome_lint, h]
  rfl

theorem lintEnd_of_unreadable {rs : List Resource} {e : ConfigError}
    (h : (t.checkedClasses config.framework).mapM (t.resolve cat config.framework) = .ok rs)
    (he : config.exclusions = .error e) :
    lintEnd t cat config selected = .error (.linter (.badConfig e)) := by
  rw [lintEnd, outcome_lint, h, he]
  rfl

theorem lintEnd_of_completed {rs : List Resource} {es : List Exclusion}
    (h : (t.checkedClasses config.framework).mapM (t.resolve cat config.framework) = .ok rs)
    (he : config.exclusions = .ok es) :
    lintEnd t cat config selected = .ok (t.checkedClasses config.framework).length := by
  rw [lintEnd, outcome_lint, h, he, (forall₂_of_mapM_eq_ok _ _ _ h).length_eq]
  rfl

/-- Every ending that the conditions allow is the one that the run has. -/
theorem lintEnd_eq_of_ending {x : Except LintError Nat}
    (h : Ending t cat config.framework config.exclude x) :
    lintEnd t cat config selected = x := by
  have hresolve : ∀ {cs : List ClassDecl}, (∀ c ∈ cs, c ∈ t.checkedClasses config.framework) →
      (∀ c ∈ cs, ∃ s, t.Wraps cat c s) → ∀ c ∈ cs, ∃ r, t.resolve cat config.framework c = .ok r :=
    fun hcs hwraps c hc => (exists_resolve_eq_ok_iff cat (hcs c hc)).2 (hwraps c hc)
  cases h with
  | @unresolved before after c hsplit hbefore hc =>
    obtain ⟨hmem, hmemc⟩ := mem_of_checkedClasses_eq hsplit
    have hfirst := (resolve_eq_error_iff cat hmemc _).2 ⟨hc, rfl⟩
    apply lintEnd_of_unresolved t cat config selected
    rw [hsplit]
    apply mapM_eq_error_of_first _ before after c _ _ hfirst
    exact hresolve hmem hbefore
  | @unreadable before after w e hresolved hsplit hbefore hw =>
    obtain ⟨rs, hrs⟩ := exists_mapM_eq_ok _ _ (hresolve (fun c hc => hc) hresolved)
    apply lintEnd_of_unreadable t cat config selected hrs
    unfold Config.exclusions Exclusion.compile
    rw [hsplit]
    apply mapM_eq_error_of_first _ before after w
    · exact fun w' hw' => (exists_read_eq_ok_iff w').2 (hbefore w' hw')
    · exact (read_eq_error_iff w _).2 ⟨e, hw, rfl⟩
  | completed hresolved hreadable =>
    obtain ⟨rs, hrs⟩ := exists_mapM_eq_ok _ _ (hresolve (fun c hc => hc) hresolved)
    obtain ⟨es, hes⟩ := exists_mapM_eq_ok _ _
      fun w hw => (exists_read_eq_ok_iff w).2 (hreadable w hw)
    exact lintEnd_of_completed t cat config selected hrs hes

/-- The run has an ending that the conditions allow. -/
theorem ending_lintEnd :
    Ending t cat config.framework config.exclude (lintEnd t cat config selected) := by
  rcases mapM_cases (t.resolve cat config.framework) (t.checkedClasses config.framework) with
    ⟨rs, hrs, -⟩ | ⟨before, c, after, e, hsplit, hbefore, hc, herr⟩
  · have hresolved : ∀ c ∈ t.checkedClasses config.framework, ∃ s, t.Wraps cat c s := by
      intro c hc
      exact (exists_resolve_eq_ok_iff cat hc).1 (exists_eq_ok_of_mapM_eq_ok _ _ _ hrs c hc)
    -- Only now, with every class resolved, do the exclusions count.
    rcases mapM_cases (fun w => (Exclusion.ofString w).mapError (ConfigError.badExclusion w))
        config.exclude with
      ⟨es, hes, -⟩ | ⟨before, w, after, e, hsplit, hbefore, hw, herr⟩
    · rw [lintEnd_of_completed t cat config selected hrs hes]
      refine .completed hresolved ?_
      intro w hw
      exact (exists_read_eq_ok_iff w).1 (exists_eq_ok_of_mapM_eq_ok _ _ _ hes w hw)
    · obtain ⟨flaw, hflaw, rfl⟩ := (read_eq_error_iff w e).1 hw
      rw [lintEnd_of_unreadable t cat config selected hrs herr]
      exact .unreadable hresolved hsplit
        (fun w' hw' => (exists_read_eq_ok_iff w').1 (hbefore w' hw')) hflaw
  · obtain ⟨hmem, hmemc⟩ := mem_of_checkedClasses_eq hsplit
    obtain ⟨hnone, rfl⟩ := (resolve_eq_error_iff cat hmemc e).1 hc
    rw [lintEnd_of_unresolved t cat config selected herr]
    refine .unresolved hsplit ?_ hnone
    intro d hd
    exact (exists_resolve_eq_ok_iff cat (hmem d hd)).1 (hbefore d hd)

theorem lintEnd_eq_iff_ending (x : Except LintError Nat) :
    lintEnd t cat config selected = x ↔ Ending t cat config.framework config.exclude x := by
  constructor
  · intro h
    rw [← h]
    exact ending_lintEnd t cat config selected
  · exact lintEnd_eq_of_ending t cat config selected

end Run

/-- The endings of a run, and none besides: no rule is added twice and none breaks off, and the
failing severity, the rule settings and the selection can be exchanged. -/
theorem lintEnd_eq_iff (t : TypeTable) (cat : Catalog) (config : Config)
    (selected : Option (List String)) :
    (∀ x, lintEnd t cat config selected = x ↔ Ending t cat config.framework config.exclude x) ∧
      (∀ code, (lint t cat config selected).outcome ≠ .error (.linter (.duplicateRule code))) ∧
      (∀ code resource reason, (lint t cat config selected).outcome ≠
        .error (.linter (.ruleBroke code resource reason))) ∧
      ∀ failOn rules selected',
        lintEnd t cat { config with failOn := failOn, rules := rules } selected' =
          lintEnd t cat config selected := by
  have herror : ∀ e, (lint t cat config selected).outcome = .error e →
      Ending t cat config.framework config.exclude (.error e) := by
    intro e he
    rw [← lintEnd_eq_iff_ending t cat config selected, lintEnd, he]
    rfl
  refine ⟨lintEnd_eq_iff_ending t cat config selected, ?_, ?_, ?_⟩
  · intro code h
    cases herror _ h
  · intro code resource reason h
    cases herror _ h
  · intro failOn rules selected'
    rw [lintEnd_eq_iff_ending]
    exact ending_lintEnd t cat config selected

end ResourceLint
