import ResourceLint.Proofs.FailureModes
import ResourceLint.Proofs.Findings

/-!
What configuration and selection do to a run. They are a filter on the plain report: a violation is
dropped or kept by its code and scope alone, and what is kept changes at most its severity.
-/

namespace ResourceLint

/-- Both halves of a written exclusion match: the first the code, the second the scope. -/
def Exclusion.suppresses (w : String) (v : Violation) : Bool :=
  match Glob.Pattern.ofString (halves w).1, Glob.Pattern.ofString (halves w).2 with
  | .ok code, .ok scope => code.matches v.code && scope.matches v.scope
  | _, _ => false

namespace Config

/-- A violation is kept if its code is enabled and selected and no exclusion suppresses it. -/
def keeps (config : Config) (selected : Option (List String)) (v : Violation) : Bool :=
  config.isEnabled v.code && selected.all (fun listed => v.code ∈ listed)
    && !config.exclude.any fun w => Exclusion.suppresses w v

def regraded (config : Config) (v : Violation) : Violation :=
  { v with severity := (config.severity? v.code).getD v.severity }

def filtered (config : Config) (selected : Option (List String)) (report : Report) : Report :=
  ⟨(report.violations.filter (config.keeps selected)).map config.regraded,
    report.resourcesChecked⟩

end Config

theorem Exclusion.suppresses_eq {w : String} {e : Exclusion} (h : Exclusion.ofString w = .ok e)
    (v : Violation) : suppresses w v = e.covers v.code v.scope := by
  unfold ofString at h
  unfold suppresses
  cases hcode : Glob.Pattern.ofString (halves w).1 with
  | error flaw =>
    rw [hcode] at h
    cases h
  | ok code =>
    cases hscope : Glob.Pattern.ofString (halves w).2 with
    | error flaw =>
      rw [hcode, hscope] at h
      cases h
    | ok scope =>
      rw [hcode, hscope] at h
      cases h
      rfl

/-- Exclusions that have been read cover what the written ones suppress. -/
theorem Exclusion.any_covers_eq {written : List String} {es : List Exclusion}
    (h : compile written = .ok es) (v : Violation) :
    es.any (·.covers v.code v.scope) = written.any fun w => suppresses w v := by
  have hall := forall₂_of_mapM_eq_ok _ _ _ h
  clear h
  induction hall with
  | nil => rfl
  | @cons w e written es hw _ ih =>
    have hread : ofString w = .ok e := (mapError_eq_ok_iff _ _ e).1 hw
    rw [List.any_cons, List.any_cons, ih, suppresses_eq hread]

section Reports

variable {config : Config} {es : List Exclusion}

theorem enabledRules_eq (selected : Option (List String)) :
    (linterFor config selected es).enabledRules =
      (Conventions.all config.framework).filter fun r =>
        config.isEnabled r.code && selected.all fun listed => r.code ∈ listed := by
  unfold Linter.enabledRules linterFor Conventions.chosen
  exact List.filter_filter

/-- What a convention contributes can be told from what it finds, without the convention. -/
theorem contribution_eq (hes : config.exclusions = .ok es) (selected : Option (List String))
    (s : Resource) {r : Rule Resource} (hr : r ∈ Conventions.all config.framework) :
    (linterFor config selected es).contribution s r =
      ((r.found s).filter fun v => !config.exclude.any fun w => Exclusion.suppresses w v).map
        config.regraded := by
  have hexcludes : (linterFor config selected es).excludes =
      fun v => config.exclude.any fun w => Exclusion.suppresses w v :=
    funext (Exclusion.any_covers_eq hes)
  unfold Linter.contribution Linter.kept
  rw [hexcludes]
  apply List.map_congr_left
  intro v hv
  have hcode : v.code = r.code := Conventions.code_of_mem_found hr s (List.mem_filter.1 hv).1
  unfold Linter.regrade Config.regraded
  rw [hcode]
  rfl

/-- The violations of a configured run on one resource, from all that the conventions find. -/
theorem contributions_eq (hes : config.exclusions = .ok es) (selected : Option (List String))
    (s : Resource) :
    (linterFor config selected es).enabledRules.flatMap
        ((linterFor config selected es).contribution s) =
      (((Conventions.all config.framework).flatMap (·.found s)).filter
        (config.keeps selected)).map config.regraded := by
  have hcontributions : ∀ r ∈ (linterFor config selected es).enabledRules,
      (linterFor config selected es).contribution s r =
        ((r.found s).filter fun v => !config.exclude.any fun w => Exclusion.suppresses w v).map
          config.regraded :=
    fun r hr => contribution_eq hes selected s (enabledRules_linterFor hr)
  -- Selection and settings look at rules and exclusions at violations. As what a rule finds carries
  -- its code, the first two are tests on violations as well.
  have hsource : ∀ r ∈ Conventions.all config.framework, ∀ v ∈ r.found s,
      (config.isEnabled v.code && selected.all fun listed => v.code ∈ listed) =
        (config.isEnabled r.code && selected.all fun listed => r.code ∈ listed) := by
    intro r hr v hv
    rw [Conventions.code_of_mem_found hr s hv]
  have hkeeps : config.keeps selected = fun v =>
      (!config.exclude.any fun w => Exclusion.suppresses w v) &&
        (config.isEnabled v.code && selected.all fun listed => v.code ∈ listed) :=
    funext fun v => Bool.and_comm _ _
  rw [List.flatMap_congr hcontributions, ← List.map_flatMap, ← List.filter_flatMap, enabledRules_eq,
    ← filter_flatMap_of_source _ _ _ _ hsource, List.filter_filter, hkeeps]

theorem reportFor_eq_filtered (hes : config.exclusions = .ok es) (selected : Option (List String))
    (rs : List Resource) :
    reportFor config selected es rs =
      config.filtered selected (reportFor { framework := config.framework } none [] rs) := by
  rw [reportFor_plain, Config.filtered, List.filter_flatMap, List.map_flatMap, reportFor]
  simp only [contributions_eq hes selected]

/-- Selecting one code keeps its violations of the report without a selection. -/
theorem reportFor_slice (hes : config.exclusions = .ok es) (code : String) (rs : List Resource) :
    reportFor config (some [code]) es rs =
      ⟨(reportFor config none es rs).ofCode code,
        (reportFor config none es rs).resourcesChecked⟩ := by
  have hkeeps : config.keeps (some [code]) =
      fun v => decide (v.code = code) && config.keeps none v := by
    funext v
    simp only [Config.keeps, Option.all_some, Option.all_none, List.mem_singleton]
    cases config.isEnabled v.code <;> simp
  rw [reportFor_eq_filtered hes (some [code]), reportFor_eq_filtered hes none]
  unfold Config.filtered Report.ofCode
  rw [List.filter_map, hkeeps, ← List.filter_filter]
  rfl

end Reports

theorem outcome_slice (t : TypeTable) (cat : Catalog) (config : Config) (code : String) :
    (lint t cat config (some [code])).outcome =
      (lint t cat config none).outcome.map fun r => ⟨r.ofCode code, r.resourcesChecked⟩ := by
  rw [outcome_lint, outcome_lint]
  cases (t.checkedClasses config.framework).mapM (t.resolve cat config.framework) with
  | error e => rfl
  | ok rs =>
    cases hes : config.exclusions with
    | error e => rfl
    | ok es => exact congrArg Except.ok (reportFor_slice hes code rs)

/-- A configured run whose exclusions can all be read fails exactly as the plain run does, and
otherwise has the plain report through the filter. So a rule that is run alone has its slice of the
report. -/
theorem outcome_eq_filtered (t : TypeTable) (cat : Catalog) (config : Config)
    (selected : Option (List String)) (hreadable : ∀ w ∈ config.exclude, Exclusion.Readable w) :
    (lint t cat config selected).outcome =
        (lint t cat { framework := config.framework } none).outcome.map (config.filtered selected) ∧
      ∀ code, (lint t cat config (some [code])).outcome =
        (lint t cat config none).outcome.map fun r => ⟨r.ofCode code, r.resourcesChecked⟩ := by
  refine ⟨?_, outcome_slice t cat config⟩
  obtain ⟨es, hes⟩ : ∃ es, config.exclusions = .ok es :=
    exists_mapM_eq_ok _ _ fun w hw => (exists_read_eq_ok_iff w).2 (hreadable w hw)
  rw [outcome_lint, outcome_lint, hes]
  cases (t.checkedClasses config.framework).mapM (t.resolve cat config.framework) with
  | error e => rfl
  | ok rs => exact congrArg Except.ok (reportFor_eq_filtered hes selected rs)

namespace Sample

/-- One rule is turned off, one is regraded, and grants below a name are not reported. -/
def config : Config where
  framework := framework
  exclude := ["grant-*:n.Stem.*"]
  rules := .ofList [("resource-interface", { severity := some .error }),
    ("resource-attribute", { enabled := some false })]

def selection : List String :=
  ["resource-interface", "resource-attribute", "resource-attribute-immutable", "grant-result"]

theorem filtered_report :
    (lint table catalog config (some selection)).outcome = .ok
      ⟨[⟨"resource-interface", .error, "n.Leaf", "n.Leaf",
            "every resource must have a resource interface", none⟩,
          ⟨"resource-attribute-immutable", .error, "n.Leaf", "n.Leaf.name",
            "resource attributes must be immutable (readonly)", none⟩,
          ⟨"resource-attribute-immutable", .error, "n.Leaf", "n.Leaf.tags",
            "resource attributes must be immutable (readonly)", none⟩], 1⟩ := by
  have hreadable : ∀ w ∈ config.exclude, Exclusion.Readable w := by
    intro w hw
    obtain rfl : w = "grant-*:n.Stem.*" := List.mem_singleton.1 hw
    exact ⟨⟨⟨"grant-".toList.map .literal ++ [.anyText]⟩, by decide +kernel⟩,
      ⟨⟨"n.Stem.".toList.map .literal ++ [.anyText]⟩, by decide +kernel⟩⟩
  rw [(outcome_eq_filtered table catalog config (some selection) hreadable).1]
  decide +kernel

end Sample

end ResourceLint
