import ResourceLint.LintRun
import ResourceLint.Proofs.Ancestry
import ResourceLint.Proofs.Engine

/-!
The outcome of a whole run in closed form: the checked classes are resolved in order, then the
written exclusions are read, and then every chosen and enabled convention contributes to the report
on every resource. Nothing else can fail.
-/

namespace ResourceLint

namespace TypeTable

/-- A class is checked if it is a construct and wraps a resource, by derivation or by tag. -/
def Checked (t : TypeTable) (f : Framework) (c : ClassDecl) : Prop :=
  t.Derives c.fqn f.construct ∧ (t.Derives c.fqn f.resource ∨ (c.tag? resourceTag).isSome)

instance (t : TypeTable) (f : Framework) (c : ClassDecl) : Decidable (t.Checked f c) :=
  inferInstanceAs (Decidable (_ ∧ _))

def checkedClasses (t : TypeTable) (f : Framework) : List ClassDecl :=
  t.ownClasses.filter fun c => t.Checked f c

theorem class?_of_mem_checkedClasses {t : TypeTable} {f : Framework} {c : ClassDecl}
    (h : c ∈ t.checkedClasses f) : t.class? c.fqn = some c :=
  class?_of_mem_ownClasses (List.mem_filter.1 h).1

theorem resourceConstructs_eq (t : TypeTable) (f : Framework) :
    ((t.constructs f.construct).filter fun k => t.isResourceClass f k.decl) =
      (t.checkedClasses f).map (Construct.ofClass t) := by
  have hsame : ∀ c ∈ t.ownClasses,
      (t.isResourceClass f c && t.classExtends c f.construct) = decide (t.Checked f c) := by
    intro c hc
    have hderives := classExtends_iff_derives (class?_of_mem_ownClasses hc)
    rw [Bool.eq_iff_iff, decide_eq_true_iff]
    simp only [isResourceClass, Bool.and_eq_true, Bool.or_eq_true, hderives]
    exact And.comm
  have hdecl : (fun k => t.isResourceClass f k.decl) ∘ Construct.ofClass t = t.isResourceClass f :=
    rfl
  rw [constructs, List.filter_map, hdecl, List.filter_filter, checkedClasses]
  exact congrArg _ (List.filter_congr hsame)

def resourceOf (t : TypeTable) (f : Framework) (c : ClassDecl) (s : SchemaEntry) : Resource :=
  ⟨t, f, .ofClass t c, s, t.attributeBindings c s⟩

def resolve (t : TypeTable) (cat : Catalog) (f : Framework) (c : ClassDecl) :
    Except SchemaNotFound Resource :=
  match t.schemaFor? cat c with
  | none => .error (.ofClass c)
  | some s => .ok (t.resourceOf f c s)

theorem resolve_eq_ok_iff (t : TypeTable) (cat : Catalog) (f : Framework) (c : ClassDecl)
    (r : Resource) :
    t.resolve cat f c = .ok r ↔ ∃ s, t.schemaFor? cat c = some s ∧ r = t.resourceOf f c s := by
  unfold resolve
  cases t.schemaFor? cat c <;> simp [eq_comm]

theorem outcome_ofConstruct (t : TypeTable) (cat : Catalog) (f : Framework) (c : ClassDecl) :
    (Resource.ofConstruct t cat f (.ofClass t c)).outcome = t.resolve cat f c := by
  unfold Resource.ofConstruct resolve
  rw [Run.outcome_lift_bind]
  change Run.outcome (match t.schemaFor? cat c with
    | none => _
    | some s => _) = _
  cases t.schemaFor? cat c <;> rfl

theorem outcome_ofConstructs (t : TypeTable) (cat : Catalog) (f : Framework)
    (cs : List ClassDecl) :
    (Resource.ofConstructs t cat f (cs.map (.ofClass t))).outcome =
      cs.mapM (t.resolve cat f) := by
  induction cs with
  | nil => rfl
  | cons c cs ih =>
    rw [List.map_cons, Resource.ofConstructs, Run.outcome_bind, outcome_ofConstruct, List.mapM_cons]
    congr 1
    funext r
    rw [Run.outcome_bind, ih]
    rfl

theorem outcome_resources (t : TypeTable) (cat : Catalog) (f : Framework) :
    (t.resources cat f).outcome = (t.checkedClasses f).mapM (t.resolve cat f) := by
  unfold resources
  rw [Run.outcome_lift_bind, resourceConstructs_eq, outcome_ofConstructs]

end TypeTable

namespace Conventions

def chosen (f : Framework) (selected : Option (List String)) : List (Rule Resource) :=
  (all f).filter fun r => selected.all fun listed => r.code ∈ listed

theorem nodup_codes (f : Framework) : ((all f).map (·.code)).Nodup := by
  simp [all, Rule.ofChecks]

theorem nodup_codes_chosen (f : Framework) (selected : Option (List String)) :
    ((chosen f selected).map (·.code)).Nodup :=
  (nodup_codes f).sublist (List.filter_sublist.map _)

theorem addAll_all (f : Framework) : RuleSet.addAll {} (all f) = .ok ⟨all f⟩ := by
  rw [RuleSet.addAll_of_nodup]
  · rfl
  · simpa [RuleSet.codes] using nodup_codes f

theorem exists_ofChecks {f : Framework} {r : Rule Resource} (hr : r ∈ all f) :
    ∃ code message severity checks, r = .ofChecks code message severity checks := by
  simp only [all, List.mem_cons, List.not_mem_nil, or_false] at hr
  rcases hr with rfl | rfl | rfl | rfl | rfl | rfl <;> exact ⟨_, _, _, _, rfl⟩

theorem completes {f : Framework} {r : Rule Resource} (hr : r ∈ all f) (s : Resource) :
    r.Completes s := by
  obtain ⟨code, message, severity, checks, rfl⟩ := exists_ofChecks hr
  exact Rule.completes_ofChecks code message severity checks s

/-- What a convention finds carries its code. -/
theorem code_of_mem_found {f : Framework} {r : Rule Resource} (hr : r ∈ all f) (s : Resource)
    {v : Violation} (hv : v ∈ r.found s) : v.code = r.code := by
  obtain ⟨code, message, severity, checks, rfl⟩ := exists_ofChecks hr
  rw [Rule.found_ofChecks] at hv
  obtain ⟨check, -, rfl⟩ := List.mem_map.1 hv
  rfl

theorem selectRules_value (f : Framework) (selected : Option (List String)) :
    (selectRules ⟨all f⟩ selected).value = ⟨chosen f selected⟩ := by
  cases selected with
  | none => simp [chosen, selectRules, pure]
  | some listed => rfl

end Conventions

def linterFor (config : Config) (selected : Option (List String)) (es : List Exclusion) :
    Linter Resource :=
  ⟨⟨Conventions.chosen config.framework selected⟩, config, es⟩

def reportFor (config : Config) (selected : Option (List String)) (es : List Exclusion)
    (rs : List Resource) : Report :=
  let l := linterFor config selected es
  ⟨rs.flatMap fun r => l.enabledRules.flatMap (l.contribution r), rs.length⟩

/-- With nothing configured and nothing selected, the report holds all that the conventions find. -/
theorem reportFor_plain (f : Framework) (rs : List Resource) :
    reportFor { framework := f } none [] rs =
      ⟨rs.flatMap fun r => (Conventions.all f).flatMap (·.found r), rs.length⟩ := by
  have henabled : (linterFor { framework := f } none []).enabledRules = Conventions.all f := by
    have hall : ∀ code, Config.isEnabled { framework := f } code = true := fun _ => rfl
    simp [Linter.enabledRules, linterFor, Conventions.chosen, hall]
  have hkept : (linterFor { framework := f } none []).contribution = fun s r => r.found s := by
    funext s r
    have hgrade : (linterFor { framework := f } none []).regrade r.code = id := rfl
    have hnone : ∀ v, (linterFor { framework := f } none []).excludes v = false := fun _ => rfl
    simp only [Linter.contribution, Linter.kept, hgrade, hnone, List.map_id, Bool.not_false,
      List.filter_true]
  simp only [reportFor, henabled, hkept]

theorem build_chosen (config : Config) (selected : Option (List String)) :
    LinterPlan.build { rules := Conventions.chosen config.framework selected, config := config } =
      (config.exclusions.mapError .badConfig).map (linterFor config selected) := by
  have hrules : RuleSet.addAll {} (Conventions.chosen config.framework selected) =
      .ok ⟨Conventions.chosen config.framework selected⟩ := by
    rw [RuleSet.addAll_of_nodup]
    · rfl
    · simpa [RuleSet.codes] using Conventions.nodup_codes_chosen config.framework selected
  have hfurther : Exclusion.compile [] = .ok [] := rfl
  unfold LinterPlan.build
  simp only [hrules, hfurther]
  cases config.exclusions with
  | error e => rfl
  | ok es =>
    have hjoined : es ++ [] = es := List.append_nil es
    exact congrArg (fun all => Except.ok (⟨_, config, all⟩ : Linter Resource)) hjoined

theorem enabledRules_linterFor {config : Config} {selected : Option (List String)}
    {es : List Exclusion} {r : Rule Resource}
    (h : r ∈ (linterFor config selected es).enabledRules) :
    r ∈ Conventions.all config.framework :=
  (List.mem_filter.1 (List.mem_filter.1 h).1).1

theorem outcome_lint (t : TypeTable) (cat : Catalog) (config : Config)
    (selected : Option (List String)) :
    (lint t cat config selected).outcome =
      (((t.checkedClasses config.framework).mapM (t.resolve cat config.framework)).mapError
        .schemaNotFound).bind fun rs =>
          (config.exclusions.mapError fun e => .linter (.badConfig e)).map fun es =>
            reportFor config selected es rs := by
  unfold lint
  rw [Run.outcome_bind, Run.outcome_mapError, TypeTable.outcome_resources]
  congr 1
  funext rs
  rw [Run.outcome_lift_bind, Conventions.addAll_all, Run.outcome_bind_ok _ _ _ rfl,
    Run.outcome_lift_bind, Conventions.selectRules_value, Run.outcome_bind, Run.outcome_ofExcept,
    build_chosen]
  cases config.exclusions with
  | error e => rfl
  | ok es =>
    have hrun := Linter.outcome_run (linterFor config selected es) rs
      fun s _ r hr => Conventions.completes (enabledRules_linterFor hr) s
    change (Run.mapError LintError.linter _).outcome = _
    rw [Run.outcome_mapError, hrun]
    rfl

/-- A run succeeds exactly if every checked class is resolved and every exclusion can be read. -/
theorem outcome_lint_eq_ok_iff (t : TypeTable) (cat : Catalog) (config : Config)
    (selected : Option (List String)) (report : Report) :
    (lint t cat config selected).outcome = .ok report ↔
      ∃ rs es, (t.checkedClasses config.framework).mapM (t.resolve cat config.framework) = .ok rs ∧
        config.exclusions = .ok es ∧ report = reportFor config selected es rs := by
  rw [outcome_lint]
  cases (t.checkedClasses config.framework).mapM (t.resolve cat config.framework) with
  | error e => simp [Except.mapError, Except.bind]
  | ok rs =>
    cases config.exclusions with
    | error e => simp [Except.mapError, Except.bind, Except.map]
    | ok es => simp [Except.mapError, Except.bind, Except.map, eq_comm]

end ResourceLint
