import ResourceLint.Proofs.Agreement
import ResourceLint.Proofs.FailureModes
import ResourceLint.Proofs.Findings
import ResourceLint.Proofs.Registration

/-!
A class that no other type refers to. Registering it leaves every walk from the classes that were
there as it was, so a run that succeeded reports the same on them. The new class comes last: it adds
nothing, or what is found on it, or the error that no schema entry is found for it.
-/

namespace ResourceLint

namespace TypeTable

/-- No class has the name, and no type of the table refers to it, be it as a base or as the type
whose property is overridden. -/
def Unreferenced (t : TypeTable) (fqn : String) : Prop :=
  fqn ∉ t.classNames ∧
    (∀ c ∈ t.classes, c.base ≠ some fqn ∧ ∀ p ∈ c.properties, p.overrides ≠ some fqn) ∧
    ∀ i ∈ t.interfaces, ∀ p ∈ i.properties, p.overrides ≠ some fqn

instance (t : TypeTable) (fqn : String) : Decidable (t.Unreferenced fqn) :=
  inferInstanceAs (Decidable (_ ∧ _))

theorem class?_addOwn (t : TypeTable) (c : ClassDecl) (fqn : String) :
    (t.addOwn c).class? fqn = if fqn = c.fqn then some c else t.class? fqn :=
  class?_enterClass t c fqn

theorem class?_addOwn_self (t : TypeTable) (c : ClassDecl) :
    (t.addOwn c).class? c.fqn = some c := by
  rw [class?_addOwn, if_pos rfl]

/-- Beside a class that nothing refers to, all names stand for what they stood for. -/
theorem agreeOn_addOwn {t : TypeTable} {d : ClassDecl} (h : t.Unreferenced d.fqn) :
    AgreeOn {n | n ≠ d.fqn} t (t.addOwn d) := by
  obtain ⟨-, hclasses, hinterfaces⟩ := h
  constructor
  · intro n hn
    rw [class?_addOwn, if_neg hn]
  · exact fun _ => rfl
  · rintro n - c hc b hbase rfl
    exact (hclasses c (List.mem_of_find?_eq_some hc)).1 hbase
  · rintro n - c hc p hp o ho rfl
    exact (hclasses c (List.mem_of_find?_eq_some hc)).2 p hp ho
  · rintro n i hi p hp o ho rfl
    exact hinterfaces i (List.mem_of_find?_eq_some hi) p hp ho

section Registered

variable {rs : List Registration} {t : TypeTable} (hfollows : Follows rs t) {d : ClassDecl}
  (h : t.Unreferenced d.fqn)

include h

theorem Unreferenced.fqn_ne {n : String} {c : ClassDecl} (hc : t.class? n = some c) :
    n ≠ d.fqn := by
  rintro rfl
  exact h.1 (fqn_of_class? hc ▸ mem_classNames_of_class? hc)

include hfollows

/-- A new class stands after the other classes of the assembly. -/
theorem ownClasses_addOwn : (t.addOwn d).ownClasses = t.ownClasses ++ [d] := by
  have hreg : ∀ n ∈ t.own, ∃ c, t.class? n = some c :=
    fun n hn => hfollows.exists_class_of_mem_own hn
  have hnew : d.fqn ∉ t.own := by
    intro hmem
    obtain ⟨c, hc⟩ := hreg d.fqn hmem
    exact h.fqn_ne hc rfl
  have hold : t.own.filterMap (t.addOwn d).class? = t.own.filterMap t.class? := by
    refine List.filterMap_congr fun n hn => ?_
    obtain ⟨c, hc⟩ := hreg n hn
    exact (agreeOn_addOwn h).class_eq n (h.fqn_ne hc)
  rw [ownClasses, own_addOwn, if_neg hnew, List.filterMap_append, hold]
  simp [class?_addOwn_self, ownClasses]

/-- The classes that were checked are checked, and then the new one if it is to be. -/
theorem checkedClasses_addOwn (f : Framework) :
    (t.addOwn d).checkedClasses f =
      t.checkedClasses f ++ if (t.addOwn d).Checked f d then [d] else [] := by
  have hold : t.ownClasses.filter (fun c => (t.addOwn d).Checked f c) =
      t.ownClasses.filter fun c => t.Checked f c := by
    refine List.filter_congr fun c hc => ?_
    have hn : c.fqn ≠ d.fqn := h.fqn_ne (class?_of_mem_ownClasses hc)
    rw [decide_eq_decide]
    exact (agreeOn_addOwn h).checked_iff f hn
  rw [checkedClasses, ownClasses_addOwn hfollows h, List.filter_append, hold, List.filter_singleton]
  simp [checkedClasses]

end Registered

end TypeTable

/-- What a convention finds on a resource is reported on that resource. -/
theorem Conventions.resource_of_mem_found {f : Framework} {r : Rule Resource} (hr : r ∈ all f)
    (s : Resource) {v : Violation} (hv : v ∈ r.found s) : v.resource = s.fqn := by
  obtain ⟨code, message, severity, checks, rfl⟩ := exists_ofChecks hr
  rw [Rule.found_ofChecks] at hv
  obtain ⟨check, -, rfl⟩ := List.mem_map.1 hv
  rfl

section Reports

variable (config : Config) (selected : Option (List String)) (es : List Exclusion)

theorem reportFor_append (rs rs' : List Resource) :
    reportFor config selected es (rs ++ rs') =
      ⟨(reportFor config selected es rs).violations
          ++ (reportFor config selected es rs').violations,
        (reportFor config selected es rs).resourcesChecked
          + (reportFor config selected es rs').resourcesChecked⟩ := by
  simp [reportFor]

theorem resource_of_mem_reportFor (r : Resource) {v : Violation}
    (hv : v ∈ (reportFor config selected es [r]).violations) : v.resource = r.fqn := by
  simp only [reportFor, List.flatMap_cons, List.flatMap_nil, List.append_nil] at hv
  obtain ⟨rule, hrule, hv⟩ := List.mem_flatMap.1 hv
  obtain ⟨v', hv', rfl⟩ := List.mem_map.1 hv
  have hfound : v' ∈ rule.found r := (List.mem_filter.1 hv').1
  -- A changed severity leaves the resource as it is.
  exact Conventions.resource_of_mem_found (v := v') (enabledRules_linterFor hrule) r hfound

/-- Resources that are alike to every convention have the same report. -/
theorem reportFor_congr {rs rs' : List Resource}
    (h : List.Forall₂ (Conventions.Alike config.framework) rs' rs) :
    reportFor config selected es rs' = reportFor config selected es rs := by
  induction h with
  | nil => rfl
  | @cons r' r rs' rs hsame _ ih =>
    have hfirst : reportFor config selected es [r'] = reportFor config selected es [r] := by
      unfold reportFor
      simp only [List.flatMap_singleton, List.length_singleton]
      congr 1
      refine List.flatMap_congr fun rule hrule => ?_
      exact congrArg (Linter.kept _ rule.code) (hsame rule (enabledRules_linterFor hrule))
    have hleft := reportFor_append config selected es [r'] rs'
    have hright := reportFor_append config selected es [r] rs
    rw [List.singleton_append] at hleft hright
    rw [hleft, hright, hfirst, ih]

end Reports

/-- After a class that nothing refers to is registered, a run that succeeded reports what it did.
What it adds is nothing if the class is not checked, the error of the class if it wraps no schema
entry, and otherwise what the conventions find on the class. -/
theorem lint_addOwn_of_unreferenced (name : String) (rs : List Registration) (cat : Catalog)
    (config : Config) (selected : Option (List String)) (report : Report) (d : ClassDecl)
    (hrun : (lint (.replay name rs) cat config selected).outcome = .ok report)
    (hd : (TypeTable.replay name rs).Unreferenced d.fqn) :
    let t := (TypeTable.replay name rs).addOwn d
    (¬ t.Checked config.framework d → (lint t cat config selected).outcome = .ok report) ∧
    (t.Checked config.framework d → (∀ s, ¬ t.Wraps cat d s) →
      (lint t cat config selected).outcome =
        .error (.schemaNotFound ⟨d.fqn, (Naming.inferredType? d.fqn).getD "<none>"⟩)) ∧
    (t.Checked config.framework d → ∀ s, t.Wraps cat d s →
      ∃ es vs, config.exclusions = .ok es ∧
        vs = (reportFor config selected es [t.resourceOf config.framework d s]).violations ∧
        (∀ v ∈ vs, v.resource = d.fqn) ∧
        (lint t cat config selected).outcome =
          .ok ⟨report.violations ++ vs, report.resourcesChecked + 1⟩) := by
  intro t
  obtain ⟨resources, es, hresources, hes, rfl⟩ :=
    (outcome_lint_eq_ok_iff _ cat config selected report).1 hrun
  have hnames : ∀ c ∈ (TypeTable.replay name rs).checkedClasses config.framework,
      (TypeTable.replay name rs).class? c.fqn = some c ∧ c.fqn ∈ {n | n ≠ d.fqn} := by
    intro c hc
    have hclass := TypeTable.class?_of_mem_checkedClasses hc
    exact ⟨hclass, hd.fqn_ne hclass⟩
  obtain ⟨resources', hresources', hsame⟩ :=
    (TypeTable.agreeOn_addOwn hd).exists_mapM_resolve cat config.framework hnames hresources
  have hreport := reportFor_congr config selected es hsame
  have hchecked := TypeTable.checkedClasses_addOwn (follows_replay name rs) hd config.framework
  refine ⟨?_, ?_, ?_⟩
  · intro hnot
    rw [if_neg hnot, List.append_nil] at hchecked
    refine (outcome_lint_eq_ok_iff t cat config selected _).2
      ⟨resources', es, ?_, hes, hreport.symm⟩
    rw [hchecked]
    exact hresources'
  · intro hyes hnone
    rw [if_pos hyes] at hchecked
    have hmem : d ∈ t.checkedClasses config.framework := by rw [hchecked]; simp
    have herror := (resolve_eq_error_iff cat hmem _).2 ⟨not_exists.2 hnone, rfl⟩
    rw [outcome_lint, hchecked, mapM_concat _ _ _ hresources', herror]
    rfl
  · intro hyes s hs
    rw [if_pos hyes] at hchecked
    have hwraps := (TypeTable.wraps_iff cat (TypeTable.class?_addOwn_self _ d) s).1 hs
    have hok := (TypeTable.resolve_eq_ok_iff t cat config.framework d _).2 ⟨s, hwraps, rfl⟩
    refine ⟨es, _, hes, rfl, fun v hv => resource_of_mem_reportFor config selected es _ hv, ?_⟩
    refine (outcome_lint_eq_ok_iff t cat config selected _).2
      ⟨resources' ++ [t.resourceOf config.framework d s], es, ?_, hes, ?_⟩
    · rw [hchecked, mapM_concat _ _ _ hresources', hok]
      rfl
    · rw [reportFor_append, hreport]
      rfl

namespace Sample

def history : List Registration :=
  [.ofClass stem false, .ofClass leaf true, .ofInterface (.ofName "n.IStem") true]

/-- A class below the sample classes whose one property says that it overrides itself. -/
def bud : ClassDecl where
  fqn := "n.Bud"
  base := some "n.Leaf"
  properties := [PropertyDecl.ofName "id" |>.overriding "n.Bud"]
  docs := Docs.empty.withTag "resource" "Sheet"

theorem bud_appends :
    (lint (.replay "n" history) catalog { framework := framework } none).outcome = .ok report ∧
      (TypeTable.replay "n" history).Unreferenced bud.fqn ∧
      ∃ vs, (∀ v ∈ vs, v.resource = "n.Bud") ∧
        (lint ((TypeTable.replay "n" history).addOwn bud) catalog { framework := framework }
          none).outcome = .ok ⟨report.violations ++ vs, 2⟩ := by
  have hrun : (lint (.replay "n" history) catalog { framework := framework } none).outcome =
      .ok report := by decide +kernel
  have hfree : (TypeTable.replay "n" history).Unreferenced bud.fqn := by decide +kernel
  have hchecked : ((TypeTable.replay "n" history).addOwn bud).Checked framework bud := by
    decide +kernel
  have hwraps : ((TypeTable.replay "n" history).addOwn bud).Wraps catalog bud
      ⟨"Sheet", ["Name", "Arn", "Id"]⟩ :=
    (TypeTable.wraps_iff catalog (TypeTable.class?_addOwn_self _ bud) _).2 (by decide +kernel)
  obtain ⟨-, -, hthird⟩ := lint_addOwn_of_unreferenced "n" history catalog
    { framework := framework } none report bud hrun hfree
  obtain ⟨_, vs, -, -, hvs, hreport⟩ := hthird hchecked _ hwraps
  exact ⟨hrun, hfree, vs, hvs, hreport⟩

end Sample

end ResourceLint
