import ResourceLint.Proofs.Composition
import ResourceLint.Proofs.Flattening
import ResourceLint.Proofs.LintOutcome

/-!
Which classes a run on an assembly evaluates. They are laid down by the declarations alone: of the
assembly's own names, in the order of their first declarations, each stands for its last one, and
the class is evaluated if the framework's names can be reached from it. A run announces exactly
these classes in its log, and reports what every enabled rule finds on them.
-/

namespace ResourceLint

namespace Assembly

/-- The class that `x` stands for in the assembly and its dependencies names `y` as its base. -/
def BaseLink (a : Assembly) (x y : String) : Prop :=
  ∃ c, c.fqn = x ∧ Latest (·.fqn) a.allClasses c ∧ c.base = some y

/-- The name `y` can be reached from `x` along named bases; it need not be declared. -/
def Derives (a : Assembly) (x y : String) : Prop := Relation.ReflTransGen a.BaseLink x y

def WrapsResource (a : Assembly) (f : Framework) (c : ClassDecl) : Prop :=
  a.Derives c.fqn f.construct ∧ (a.Derives c.fqn f.resource ∨ (c.tag? resourceTag).isSome)

/-- The classes that are to be evaluated on behalf of an assembly, in order. -/
structure Agenda (a : Assembly) (f : Framework) (cs : List ClassDecl) : Prop where
  mem_iff : ∀ c, c ∈ cs ↔ Latest (·.fqn) a.classes c ∧ a.WrapsResource f c
  once : (cs.map (·.fqn)).Nodup
  ordered : (cs.map (·.fqn)).Sublist (a.classes.map (·.fqn)).eraseDups

theorem derives_iff (a : Assembly) (x y : String) :
    a.Derives x y ↔ (TypeTable.ofAssembly a).Derives x y := by
  have hlink : a.BaseLink = (TypeTable.ofAssembly a).BaseLink := by
    funext x y
    simp only [BaseLink, TypeTable.BaseLink, TypeTable.class?_ofAssembly_eq_some_iff, and_assoc]
  rw [Derives, TypeTable.Derives, hlink]

theorem mem_ownClasses_iff (a : Assembly) (c : ClassDecl) :
    c ∈ (TypeTable.ofAssembly a).ownClasses ↔ Latest (·.fqn) a.classes c := by
  rw [(overlay_iff _ _).1 (TypeTable.overlay_ownClasses a), mem_layered_iff]

/-- The checked classes of the table are those that the declarations call for. -/
theorem agenda_checkedClasses (a : Assembly) (f : Framework) :
    a.Agenda f ((TypeTable.ofAssembly a).checkedClasses f) := by
  have hordered : (((TypeTable.ofAssembly a).checkedClasses f).map (·.fqn)).Sublist
      (a.classes.map (·.fqn)).eraseDups := by
    rw [← (TypeTable.overlay_ownClasses a).names]
    exact List.filter_sublist.map _
  refine ⟨?_, (nodup_eraseDups _).sublist hordered, hordered⟩
  intro c
  rw [TypeTable.checkedClasses, List.mem_filter, mem_ownClasses_iff, decide_eq_true_iff,
    WrapsResource, derives_iff, derives_iff]
  rfl

end Assembly

namespace Run

variable {ε α β : Type}

/-- After some lines of the log the run is the run `y`. -/
def EndsIn (x y : Run ε α) : Prop := (∃ front, x.log = front ++ y.log) ∧ x.outcome = y.outcome

theorem EndsIn.refl (x : Run ε α) : EndsIn x x := ⟨⟨[], rfl⟩, rfl⟩

theorem log_bind_ok (x : Run ε α) (k : α → Run ε β) (a : α) (h : x.outcome = .ok a) :
    (x >>= k).log = x.log ++ (k a).log := by
  obtain ⟨lines, v⟩ := x
  cases h
  rfl

theorem log_lift_bind (x : Traced α) (k : α → Run ε β) :
    ((liftM x : Run ε α) >>= k).log = x.log ++ (k x.value).log := by
  have hlift : (liftM x : Run ε α).log = x.log := List.append_nil _
  rw [log_bind_ok _ k x.value rfl, hlift]

theorem log_pure (a : α) : (pure a : Run ε α).log = [] := rfl

theorem EndsIn.bind {x : Run ε α} {k : α → Run ε β} {a : α} {y : Run ε β} (hx : x.outcome = .ok a)
    (h : EndsIn (k a) y) : EndsIn (x >>= k) y := by
  obtain ⟨⟨front, hlog⟩, houtcome⟩ := h
  refine ⟨⟨x.log ++ front, ?_⟩, ?_⟩
  · rw [log_bind_ok x k a hx, hlog, List.append_assoc]
  · rw [outcome_bind_ok x k a hx, houtcome]

theorem EndsIn.lift_bind {x : Traced α} {k : α → Run ε β} {y : Run ε β}
    (h : EndsIn (k x.value) y) : EndsIn ((liftM x : Run ε α) >>= k) y :=
  .bind rfl h

end Run

/-- A run that gets as far as that ends in the linter's work on its resources. -/
theorem lint_endsIn (t : TypeTable) (cat : Catalog) (config : Config)
    (selected : Option (List String)) (rs : List Resource) (es : List Exclusion)
    (hrs : (t.checkedClasses config.framework).mapM (t.resolve cat config.framework) = .ok rs)
    (hes : config.exclusions = .ok es) :
    (lint t cat config selected).EndsIn
      (Run.mapError .linter ((linterFor config selected es).run rs)) := by
  have hresources : (Run.mapError LintError.schemaNotFound
      (t.resources cat config.framework)).outcome = .ok rs := by
    rw [Run.outcome_mapError, TypeTable.outcome_resources, hrs]
    rfl
  have hconventions : (Run.ofExcept ((RuleSet.addAll {} (Conventions.all config.framework)).mapError
      (LintError.linter ∘ .duplicateRule))).outcome = .ok ⟨Conventions.all config.framework⟩ := by
    rw [Conventions.addAll_all]
    rfl
  have hbuild : (Run.ofExcept ((LinterPlan.build ⟨Conventions.chosen config.framework selected, [],
      config⟩).mapError LintError.linter)).outcome = .ok (linterFor config selected es) := by
    rw [build_chosen, hes]
    rfl
  unfold lint
  refine .bind hresources (.lift_bind (.bind hconventions (.lift_bind ?_)))
  rw [Conventions.selectRules_value]
  exact .bind hbuild (.refl _)

def LogLine.Announces (line : LogLine) : Prop :=
  line.level = .debug ∧ "Linting: ".toList <+: line.message.toList

instance (line : LogLine) : Decidable line.Announces := inferInstanceAs (Decidable (_ ∧ _))

def announcement (fqn : String) : LogLine := ⟨.debug, "Linting: " ++ fqn⟩

theorem announces_announcement (fqn : String) : (announcement fqn).Announces := by
  refine ⟨rfl, ?_⟩
  rw [announcement, String.toList_append]
  exact List.prefix_append _ _

namespace Linter

variable {σ : Type}

theorem not_announces_of_mem_exclusionLog {l : Linter σ} {vs : List Violation} {line : LogLine}
    (h : line ∈ l.exclusionLog vs) : ¬ line.Announces := by
  obtain ⟨v, -, rfl⟩ := List.mem_map.1 h
  intro hannounces
  have hmessage := hannounces.2
  simp only [String.toList_append, List.append_assoc] at hmessage
  simp at hmessage

variable [Subject σ]

theorem log_runRule (l : Linter σ) (s : σ) (r : Rule σ) (h : r.Completes s) :
    (l.runRule s r).log = l.exclusionLog (r.found s) := by
  unfold runRule
  rw [h]
  change Run.log (_ >>= _) = _
  rw [Run.log_lift_bind, Run.log_pure, List.append_nil]
  rfl

theorem log_runRules (l : Linter σ) (s : σ) (rs : List (Rule σ)) (h : ∀ r ∈ rs, r.Completes s) :
    (l.runRules s rs).log = rs.flatMap fun r => l.exclusionLog (r.found s) := by
  induction rs with
  | nil => rfl
  | cons r rs ih =>
    have hfirst := h r List.mem_cons_self
    have hothers : ∀ r' ∈ rs, r'.Completes s := fun r' hr' => h r' (List.mem_cons_of_mem r hr')
    rw [runRules, Run.log_bind_ok _ _ _ (outcome_runRule l s r hfirst),
      Run.log_bind_ok _ _ _ (outcome_runRules l s rs hothers), log_runRule l s r hfirst, ih hothers,
      Run.log_pure, List.append_nil, List.flatMap_cons]

/-- The log of a run in which no rule breaks off announces each subject and then says what is
excluded of the findings on it. -/
theorem log_runSubjects (l : Linter σ) (ss : List σ)
    (h : ∀ s ∈ ss, ∀ r ∈ l.enabledRules, r.Completes s) :
    (l.runSubjects ss).log = ss.flatMap fun s => announcement (Subject.fqn s) ::
      l.enabledRules.flatMap fun r => l.exclusionLog (r.found s) := by
  induction ss with
  | nil => rfl
  | cons s ss ih =>
    have hfirst := h s List.mem_cons_self
    have hothers : ∀ s' ∈ ss, ∀ r ∈ l.enabledRules, r.Completes s' :=
      fun s' hs' => h s' (List.mem_cons_of_mem s hs')
    rw [runSubjects, Run.log_lift_bind, Run.log_bind_ok _ _ _ (outcome_runRules l s _ hfirst),
      Run.log_bind_ok _ _ _ (outcome_runSubjects l ss hothers), log_runRules l s _ hfirst,
      ih hothers, Run.log_pure, List.append_nil, List.flatMap_cons]
    rfl

theorem filter_log_runSubjects (l : Linter σ) (ss : List σ)
    (h : ∀ s ∈ ss, ∀ r ∈ l.enabledRules, r.Completes s) :
    (l.runSubjects ss).log.filter (·.Announces) = ss.map fun s => announcement (Subject.fqn s) := by
  have hexcluded : ∀ s : σ, (l.enabledRules.flatMap fun r => l.exclusionLog (r.found s)).filter
      (·.Announces) = [] := by
    intro s
    rw [List.filter_eq_nil_iff]
    intro line hline
    obtain ⟨r, -, hline⟩ := List.mem_flatMap.1 hline
    simpa using not_announces_of_mem_exclusionLog hline
  rw [log_runSubjects l ss h, List.filter_flatMap, List.map_eq_flatMap]
  refine List.flatMap_congr fun s _ => ?_
  rw [List.filter_cons, if_pos (by simpa using announces_announcement _), hexcluded]

def overview (l : Linter σ) (ss : List σ) : LogLine :=
  ⟨.info, "Evaluating " ++ Nat.repr l.enabledRules.length ++ " rule(s) against "
    ++ Nat.repr ss.length ++ " resource(s)"⟩

theorem log_run (l : Linter σ) (ss : List σ)
    (h : ∀ s ∈ ss, ∀ r ∈ l.enabledRules, r.Completes s) :
    (l.run ss).log =
      (l.disabledRules.map fun r => ⟨.debug, "Skipping disabled rule: " ++ r.code⟩)
        ++ l.overview ss :: ((l.runSubjects ss).log
          ++ [⟨.info, "Lint complete: " ++ Nat.repr (l.fullReport ss).violations.length
            ++ " violation(s) in " ++ Nat.repr ss.length ++ " resource(s)"⟩]) := by
  rw [run, Run.log_lift_bind, Run.log_lift_bind,
    Run.log_bind_ok _ _ _ (outcome_runSubjects l ss h), Run.log_lift_bind, Run.log_pure]
  rfl

/-- A run in which no rule breaks off announces its subjects, each once and in order. -/
theorem exists_log_run_eq (l : Linter σ) (ss : List σ)
    (h : ∀ s ∈ ss, ∀ r ∈ l.enabledRules, r.Completes s) :
    ∃ front back, (l.run ss).log = front ++ l.overview ss :: back ∧
      back.filter (·.Announces) = ss.map fun s => announcement (Subject.fqn s) := by
  refine ⟨_, _, log_run l ss h, ?_⟩
  have hclosing : ∀ message, ¬ LogLine.Announces ⟨.info, message⟩ := by
    intro message hannounces
    cases hannounces.1
  rw [List.filter_append, filter_log_runSubjects l ss h]
  simp [hclosing]

end Linter

/-- Resolved classes are those that their resources wrap, and each resource is what its class
resolves to. -/
theorem map_decl_of_mapM_resolve {t : TypeTable} {cat : Catalog} {f : Framework}
    {cs : List ClassDecl} {rs : List Resource} (h : cs.mapM (t.resolve cat f) = .ok rs) :
    rs.map (·.construct.decl) = cs ∧ ∀ r ∈ rs, t.resolve cat f r.construct.decl = .ok r := by
  have hall := forall₂_of_mapM_eq_ok _ _ _ h
  clear h
  induction hall with
  | nil => simp
  | @cons c r cs rs hr _ ih =>
    have hdecl : r.construct.decl = c := by
      obtain ⟨s, -, rfl⟩ := (TypeTable.resolve_eq_ok_iff t cat f c r).1 hr
      rfl
    refine ⟨by rw [List.map_cons, hdecl, ih.1], ?_⟩
    intro r' hr'
    rcases List.mem_cons.1 hr' with rfl | hr'
    · rw [hdecl, hr]
    · exact ih.2 r' hr'

/-- A run that succeeds on an assembly evaluates the classes that the assembly's declarations call
for, each once and in order: after it has told how many there are, its log announces these classes
and no other, its report holds what every enabled rule finds on them, and they are what it counts.
No other class has a part in it, though a dependency may declare one that would be called for. -/
theorem lint_evaluates_agenda (a : Assembly) (cat : Catalog) (config : Config)
    (selected : Option (List String)) (report : Report)
    (h : (lint (.ofAssembly a) cat config selected).outcome = .ok report) :
    ∃ es rs, config.exclusions = .ok es ∧
      a.Agenda config.framework (rs.map (·.construct.decl)) ∧
      (∀ r ∈ rs, (TypeTable.ofAssembly a).resolve cat config.framework r.construct.decl = .ok r) ∧
      (∃ front back, (lint (.ofAssembly a) cat config selected).log =
          front ++ (linterFor config selected es).overview rs :: back ∧
        back.filter (·.Announces) = rs.map fun r => announcement r.construct.decl.fqn) ∧
      report = (linterFor config selected es).fullReport rs ∧
      report.resourcesChecked = rs.length ∧
      ∀ d ∈ Assembly.classesAmong a.dependencies, d.fqn ∉ a.classes.map (·.fqn) →
        d.fqn ∉ rs.map Resource.fqn := by
  obtain ⟨rs, es, hrs, hes, rfl⟩ := (outcome_lint_eq_ok_iff _ cat config selected report).1 h
  obtain ⟨hdecls, hresolved⟩ := map_decl_of_mapM_resolve hrs
  have hagenda : a.Agenda config.framework (rs.map (·.construct.decl)) := by
    rw [hdecls]
    exact a.agenda_checkedClasses config.framework
  have hcompletes : ∀ s ∈ rs, ∀ r ∈ (linterFor config selected es).enabledRules, r.Completes s :=
    fun s _ r hr => Conventions.completes (enabledRules_linterFor hr) s
  refine ⟨es, rs, hes, hagenda, hresolved, ?_, rfl, rfl, ?_⟩
  · obtain ⟨⟨front, hlog⟩, -⟩ := lint_endsIn _ cat config selected rs es hrs hes
    obtain ⟨before, back, hrun, hannounced⟩ :=
      (linterFor config selected es).exists_log_run_eq rs hcompletes
    refine ⟨front ++ before, back, ?_, hannounced⟩
    rw [hlog, List.append_assoc]
    exact congrArg _ hrun
  · intro d _ hlocal hmem
    obtain ⟨r, hr, hfqn⟩ := List.mem_map.1 hmem
    have hlatest := ((hagenda.mem_iff r.construct.decl).1 (List.mem_map_of_mem hr)).1
    exact hlocal (List.mem_map.2 ⟨r.construct.decl, hlatest.mem, hfqn⟩)

namespace Sample

/-- A class that is declared again later and in a dependency, and one that derives from it. A class
of a nested dependency derives from the same framework class. -/
def nested : Assembly where
  name := "n"
  classes := [.ofName "n.Leaf",
    ((ClassDecl.ofName "n.Twig").withBase "n.Leaf").withTag "resource" "Sheet",
    ((ClassDecl.ofName "n.Leaf").withBase "core.Res").withTag "resource" "Sheet"]
  dependencies := [{
    name := "core"
    classes := [(ClassDecl.ofName "core.Res").withBase "Base", .ofName "n.Leaf"]
    dependencies := [{
      name := "deep"
      classes := [(ClassDecl.ofName "deep.Root").withBase "core.Res"] }] }]

def nestedConfig : Config where
  framework := ⟨"Base", "core.Res", "core.IRes", "Grant"⟩
  exclude := ["resource-interface:n.Twig"]

def nestedReport : Report where
  violations :=
    [⟨"resource-interface", .warning, "n.Leaf", "n.Leaf",
        "every resource must have a resource interface", none⟩,
      ⟨"resource-attribute", .error, "n.Leaf", "n.Leaf.sheetId",
        "resources must represent all resource attributes as properties",
        some "(missing attribute Id)"⟩,
      ⟨"resource-attribute", .error, "n.Twig", "n.Twig.sheetId",
        "resources must represent all resource attributes as properties",
        some "(missing attribute Id)"⟩]
  resourcesChecked := 2

def nestedRun : Run LintError Report :=
  lint (.ofAssembly nested) ⟨[⟨"Sheet", ["Id"]⟩]⟩ nestedConfig none

theorem nested_agenda :
    nestedRun.outcome = .ok nestedReport ∧
      ∃ (rs : List Resource) (front back : List LogLine),
        nested.Agenda nestedConfig.framework (rs.map (·.construct.decl)) ∧
        nestedRun.log =
          front ++ ⟨.info, "Evaluating 6 rule(s) against 2 resource(s)"⟩ :: back ∧
        rs.map (fun r => announcement r.construct.decl.fqn) =
          [⟨.debug, "Linting: n.Leaf"⟩, ⟨.debug, "Linting: n.Twig"⟩] ∧
        back.filter (·.Announces) =
          [⟨.debug, "Linting: n.Leaf"⟩, ⟨.debug, "Linting: n.Twig"⟩] ∧
        rs.length = 2 ∧ "deep.Root" ∉ rs.map Resource.fqn := by
  have hrun : nestedRun.outcome = .ok nestedReport := by decide +kernel
  obtain ⟨es, rs, -, hagenda, -, ⟨front, back, hlog, hannounced⟩, -, hcount, hforeign⟩ :=
    lint_evaluates_agenda nested ⟨[⟨"Sheet", ["Id"]⟩]⟩ nestedConfig none nestedReport hrun
  have hcount : rs.length = 2 := hcount.symm
  have henabled : (linterFor nestedConfig none es).enabledRules.length = 6 := by
    change ((Conventions.chosen nestedConfig.framework none).filter
      (nestedConfig.isEnabled ·.code)).length = 6
    decide +kernel
  have hoverview : (linterFor nestedConfig none es).overview rs =
      ⟨.info, "Evaluating 6 rule(s) against 2 resource(s)"⟩ := by
    rw [Linter.overview, henabled, hcount]
    decide +kernel
  have hall : nestedRun.log.filter (·.Announces) =
      [⟨.debug, "Linting: n.Leaf"⟩, ⟨.debug, "Linting: n.Twig"⟩] := by
    decide +kernel
  rw [hoverview] at hlog
  -- All announcements come after the overview, since there are no more of them than classes.
  have hback : back.filter (·.Announces) =
      [⟨.debug, "Linting: n.Leaf"⟩, ⟨.debug, "Linting: n.Twig"⟩] := by
    change nestedRun.log = _ at hlog
    rw [hlog, List.filter_append, List.filter_cons, if_neg (by decide +kernel)] at hall
    have hlengths := congrArg List.length hall
    rw [List.length_append, hannounced, List.length_map, hcount] at hlengths
    have hnone : (front.filter (·.Announces)).length = 0 := by simpa using hlengths
    rw [List.length_eq_zero_iff.1 hnone] at hall
    exact hall
  refine ⟨hrun, rs, front, back, hagenda, hlog, hannounced.symm.trans hback, hback, hcount, ?_⟩
  exact hforeign ((ClassDecl.ofName "deep.Root").withBase "core.Res") (List.mem_cons_self)
    (by decide +kernel)

end Sample

end ResourceLint
