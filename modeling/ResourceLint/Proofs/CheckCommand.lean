import Mathlib
import ResourceLint.Command.Run
import ResourceLint.Proofs.Outcome
import ResourceLint.Proofs.Presentation

/-!
The check command over several assemblies. It succeeds exactly if the configuration, the catalogue
and every assembly are loaded and every assembly is linted, and then its report is the reports on
the assemblies, one after another in the order of their paths. If anything fails, nothing is
reported, whatever was found before.
-/

namespace ResourceLint

theorem Severity.atLeast_error_iff (s : Severity) : s.atLeast .error = true ↔ s = .error := by
  cases s <;> decide

namespace Report

def merged (reports : List Report) : Report :=
  ⟨reports.flatMap (·.violations), (reports.map (·.resourcesChecked)).sum⟩

theorem merged_cons (r : Report) (rs : List Report) : merged (r :: rs) = r.append (merged rs) := by
  simp [merged, append]

theorem hasErrors_iff (r : Report) :
    r.hasErrors = true ↔ ∃ v ∈ r.violations, v.severity = .error := by
  simp only [hasErrors, reaches, List.any_eq_true, Severity.atLeast_error_iff]

/-- Reports put together have an error exactly if one of them has. -/
theorem hasErrors_merged (rs : List Report) :
    (merged rs).hasErrors = true ↔ ∃ r ∈ rs, ∃ v ∈ r.violations, v.severity = .error := by
  rw [hasErrors_iff]
  simp only [merged, List.mem_flatMap]
  tauto

end Report

/-- The order of steps is the lexicographic one. -/
theorem Path.before_iff_le (as bs : List String) : before as bs = true ↔ as ≤ bs := by
  have hle : ∀ cs ds : List String, cs ≤ ds ↔ ¬ List.Lex (· < ·) ds cs := fun _ _ => not_lt.symm
  simp only [hle]
  induction as generalizing bs with
  | nil => simp [before]
  | cons a as ih =>
    cases bs with
    | nil => simp [before]
    | cons b bs =>
      rw [before, List.cons_lex_cons_iff]
      by_cases h : a = b
      · simp [h, ih]
      · have hlt : a < b ↔ ¬ b < a := ⟨lt_asymm, fun hba => lt_of_le_of_ne (not_lt.1 hba) h⟩
        simp [h, hlt, Ne.symm h]

theorem Path.pairwise_mergeSort (found : List (List String)) :
    (found.mergeSort before).Pairwise (· ≤ ·) := by
  have hsorted : (found.mergeSort before).Pairwise fun as bs => before as bs = true := by
    apply List.pairwise_mergeSort
    · intro as bs cs
      simp only [before_iff_le]
      exact le_trans
    · intro as bs
      simp only [Bool.or_eq_true, before_iff_le]
      exact le_total as bs
  exact hsorted.imp fun {as bs} => (before_iff_le as bs).1

/-- Paths that lead from a root stand in the order of the steps that they take from it. -/
def Path.InOrder (root : String) (paths : List String) : Prop :=
  ∃ taken : List (List String), taken.Pairwise (· ≤ ·) ∧
    paths = taken.map fun names => names.foldl join root

theorem Path.inOrder_nil (root : String) : InOrder root [] := ⟨[], .nil, rfl⟩

theorem Path.inOrder_singleton (root : String) : InOrder root [root] :=
  ⟨[[]], List.pairwise_singleton _ _, rfl⟩

namespace Files

theorem outcome_assembliesBelow (fs : Files) (userFile : Option String) (path : String) :
    (fs.assembliesBelow userFile path).outcome =
      if path = standardInput then .ok []
      else
        match (fs.outerScopes path).value.reverse.flatMap IgnoreScope.faults with
        | fault :: faults => .error (fault :: faults)
        | [] =>
          match fs.find? path with
          | some (.directory entries) =>
            let found := (assembliesAmong fs (fs.userRules userFile).value
              ((fs.ignoreScope path).value :: (fs.outerScopes path).value) path entries).value
            .ok ((found.mergeSort Path.before).map fun names => names.foldl Path.join path)
          | _ => .ok [] := by
  unfold assembliesBelow
  rw [Run.outcome_lift_bind]
  by_cases hin : path = standardInput
  · rw [if_pos hin, if_pos hin]
    rfl
  · rw [if_neg hin, if_neg hin, Run.outcome_lift_bind]
    cases (fs.outerScopes path).value.reverse.flatMap IgnoreScope.faults with
    | cons fault faults => rfl
    | nil =>
      cases fs.find? path with
      | none => rfl
      | some e =>
        cases e with
        | file content => rfl
        | directory entries => rfl

theorem inOrder_of_assembliesBelow {fs : Files} {userFile : Option String} {path : String}
    {paths : List String} (h : (fs.assembliesBelow userFile path).outcome = .ok paths) :
    Path.InOrder path paths := by
  rw [outcome_assembliesBelow] at h
  split at h
  · cases h
    exact Path.inOrder_nil path
  · split at h
    · cases h
    · split at h
      · cases h
        exact ⟨_, Path.pairwise_mergeSort _, rfl⟩
      · cases h
        exact Path.inOrder_nil path

end Files

namespace Command

/-- There is always an assembly to check, and if there are several they come in order. -/
theorem inOrder_of_assembliesFor {fs : Files} {env : Environment} {path : String}
    {paths : List String} (h : (assembliesFor fs env path).outcome = .ok paths) :
    paths ≠ [] ∧ Path.InOrder path paths := by
  unfold assembliesFor at h
  split at h
  · cases h
    exact ⟨List.cons_ne_nil _ _, Path.inOrder_singleton path⟩
  · split at h
    · cases h
    · obtain ⟨found, hfound, h⟩ := (Run.outcome_bind_eq_ok_iff _ _ _).1 h
      have hbelow := (mapError_eq_ok_iff _ _ _).1 hfound
      cases found with
      | nil => cases h
      | cons first rest =>
        cases h
        exact ⟨List.cons_ne_nil _ _, Files.inOrder_of_assembliesBelow hbelow⟩

/-- A directory stands for the assembly files that are found below it. -/
theorem outcome_assembliesFor_directory {fs : Files} {env : Environment} {path : String}
    {entries : Directory} (found : List (List String)) (hin : path ≠ Files.standardInput)
    (hdir : fs.find? path = some (.directory entries))
    (hfault : (fs.outerScopes path).value.reverse.flatMap IgnoreScope.faults = [])
    (hfound : (assembliesAmong fs (fs.userRules (userIgnoreFile? fs env)).value
      ((fs.ignoreScope path).value :: (fs.outerScopes path).value) path entries).value = found)
    (hne : found ≠ []) :
    (assembliesFor fs env path).outcome =
      .ok ((found.mergeSort Path.before).map fun names => names.foldl Path.join path) := by
  have hbelow := fs.outcome_assembliesBelow (userIgnoreFile? fs env) path
  rw [if_neg hin, hfault, hdir] at hbelow
  simp only [hfound] at hbelow
  have hfile : fs.isFile path = false := by rw [Files.isFile, hdir]
  have hisdir : fs.isDirectory path = true := by rw [Files.isDirectory, hdir]
  unfold assembliesFor
  rw [hfile, hisdir, if_neg Bool.false_ne_true, if_neg (by decide), Run.outcome_bind,
    Run.outcome_mapError, hbelow]
  cases hsorted : found.mergeSort Path.before with
  | nil => exact absurd (List.nil_perm.1 (hsorted ▸ List.mergeSort_perm found Path.before)) hne
  | cons first rest => rfl

def CheckRequest.widen (r : CheckRequest) (config : Config) : Config :=
  { config with exclude := config.exclude ++ r.exclude }

/-- A file holds the text of an assembly, and the run on that assembly alone has the report. -/
def ReportOn (fs : Files) (catalog : Catalog) (config : Config) (selected : Option (List String))
    (path : String) (report : Report) : Prop :=
  ∃ text a, fs.read path = .ok text ∧ Assembly.ofText text = .ok a ∧
    (lint (.ofAssembly a) catalog config selected).outcome = .ok report

section Linting

variable (fs : Files) (catalog : Catalog) (config : Config) (selected : Option (List String))

theorem loadTypes_eq_ok_iff (path : String) (t : TypeTable) :
    fs.loadTypes path = .ok t ↔
      ∃ text a, fs.read path = .ok text ∧ Assembly.ofText text = .ok a ∧ t = .ofAssembly a := by
  unfold Files.loadTypes
  simp only [bind_eq_ok_iff, mapError_eq_ok_iff]
  constructor
  · intro h
    obtain ⟨text, hread, a, ha, heq⟩ := h
    exact ⟨text, a, hread, ha, (Except.ok.inj heq).symm⟩
  · intro h
    obtain ⟨text, a, hread, ha, rfl⟩ := h
    exact ⟨text, hread, a, ha, rfl⟩

theorem reportOn_iff (path : String) (report : Report) :
    ReportOn fs catalog config selected path report ↔
      ∃ t, fs.loadTypes path = .ok t ∧ (lint t catalog config selected).outcome = .ok report := by
  simp only [loadTypes_eq_ok_iff, ReportOn]
  constructor
  · intro h
    obtain ⟨text, a, hread, ha, hrun⟩ := h
    exact ⟨_, ⟨text, a, hread, ha, rfl⟩, hrun⟩
  · intro h
    obtain ⟨_, ⟨text, a, hread, ha, rfl⟩, hrun⟩ := h
    exact ⟨text, a, hread, ha, hrun⟩

theorem outcome_lintFile_eq_ok_iff (path : String) (report : Report) :
    (lintFile fs catalog config selected path).outcome = .ok report ↔
      ReportOn fs catalog config selected path report := by
  unfold lintFile
  simp only [Run.outcome_bind_eq_ok_iff, Run.outcome_lift_bind, Run.outcome_ofExcept,
    Run.outcome_mapError, mapError_eq_ok_iff, reportOn_iff]

/-- Linting files succeeds exactly if each of them is linted, and puts the reports together. -/
theorem outcome_lintFiles_eq_ok_iff (paths : List String) (report : Report) :
    (lintFiles fs catalog config selected paths).outcome = .ok report ↔
      ∃ reports, List.Forall₂ (ReportOn fs catalog config selected) paths reports ∧
        report = .merged reports := by
  induction paths generalizing report with
  | nil =>
    have hempty : (lintFiles fs catalog config selected []).outcome = .ok .empty := rfl
    simp only [hempty, Except.ok.injEq, List.forall₂_nil_left_iff, exists_eq_left]
    exact eq_comm
  | cons path paths ih =>
    rw [lintFiles]
    simp only [Run.outcome_bind_eq_ok_iff, outcome_lintFile_eq_ok_iff, ih]
    constructor
    · intro h
      obtain ⟨first, hfirst, _, ⟨others, hothers, rfl⟩, heq⟩ := h
      cases heq
      exact ⟨first :: others, .cons hfirst hothers, (Report.merged_cons first others).symm⟩
    · intro h
      obtain ⟨_, hall, rfl⟩ := h
      obtain ⟨first, others, hfirst, hothers, rfl⟩ := List.forall₂_cons_left_iff.1 hall
      refine ⟨first, hfirst, .merged others, ⟨others, hothers, rfl⟩, ?_⟩
      rw [Report.merged_cons]
      rfl

end Linting

section Check

variable (fs : Files) (env : Environment) (given : Option String) (r : CheckRequest)

/-- A check succeeds exactly if all that it needs is loaded and every assembly is linted. -/
theorem outcome_check_eq_ok_iff (report : Report) :
    (check fs env given r).outcome = .ok report ↔
      ∃ config catalog paths reports,
        (loadConfig fs env (projectOf fs r.path) given).outcome = .ok config ∧
        fs.loadCatalog r.schema = .ok catalog ∧ (assembliesFor fs env r.path).outcome = .ok paths ∧
        List.Forall₂ (ReportOn fs catalog (r.widen config) r.selection) paths reports ∧
        report = .merged reports := by
  unfold check
  simp only [Run.outcome_bind_eq_ok_iff, Run.outcome_lift_bind, Run.outcome_ofExcept,
    Run.outcome_mapError, mapError_eq_ok_iff, outcome_lintFiles_eq_ok_iff]
  constructor
  · intro h
    obtain ⟨config, hconfig, catalog, hcatalog, paths, hpaths, reports, hreports, rfl⟩ := h
    exact ⟨config, catalog, paths, reports, hconfig, hcatalog, hpaths, hreports, rfl⟩
  · intro h
    obtain ⟨config, catalog, paths, reports, hconfig, hcatalog, hpaths, hreports, rfl⟩ := h
    exact ⟨config, hconfig, catalog, hcatalog, paths, hpaths, reports, hreports, rfl⟩

/-- Something stands in the way of a check of the given assemblies: the configuration, the catalogue
or one of them cannot be loaded, or one of them cannot be linted. -/
inductive Obstructed (paths : List String) : Prop
  | badConfig {e : BadConfig}
      (h : (loadConfig fs env (projectOf fs r.path) given).outcome = .error e)
  | badCatalog {e : LoadError} (h : fs.loadCatalog r.schema = .error e)
  | badAssembly {path : String} {e : LoadError} (hpath : path ∈ paths)
      (h : fs.loadTypes path = .error e)
  | unlintable {config : Config} {catalog : Catalog} {path : String} {t : TypeTable} {e : LintError}
      (hconfig : (loadConfig fs env (projectOf fs r.path) given).outcome = .ok config)
      (hcatalog : fs.loadCatalog r.schema = .ok catalog) (hpath : path ∈ paths)
      (htypes : fs.loadTypes path = .ok t)
      (h : (lint t catalog (r.widen config) r.selection).outcome = .error e)

variable {fs env given r}

theorem Obstructed.exists_failure {paths : List String}
    (hpaths : (assembliesFor fs env r.path).outcome = .ok paths)
    (h : Obstructed fs env given r paths) :
    ∃ failure, (check fs env given r).outcome = .error failure := by
  cases hcheck : (check fs env given r).outcome with
  | error failure => exact ⟨failure, rfl⟩
  | ok report =>
    -- A check that succeeds has loaded and linted everything, one assembly after the other.
    exfalso
    obtain ⟨config, catalog, paths', reports, hconfig, hcatalog, hpaths', hreports, -⟩ :=
      (outcome_check_eq_ok_iff fs env given r report).1 hcheck
    obtain rfl : paths' = paths := Except.ok.inj (hpaths'.symm.trans hpaths)
    have hlinted : ∀ path ∈ paths', ∃ t, fs.loadTypes path = .ok t ∧
        ∃ report, (lint t catalog (r.widen config) r.selection).outcome = .ok report := by
      intro path hpath
      obtain ⟨report, hreport⟩ := exists_of_forall₂_of_mem hreports path hpath
      obtain ⟨t, ht, hrun⟩ := (reportOn_iff fs catalog _ _ path report).1 hreport
      exact ⟨t, ht, report, hrun⟩
    cases h with
    | badConfig h => cases hconfig.symm.trans h
    | badCatalog h => cases hcatalog.symm.trans h
    | badAssembly hpath h =>
      obtain ⟨t, ht, -⟩ := hlinted _ hpath
      cases ht.symm.trans h
    | unlintable hconfig' hcatalog' hpath ht h =>
      cases hconfig.symm.trans hconfig'
      cases hcatalog.symm.trans hcatalog'
      obtain ⟨t, ht', report, hrun⟩ := hlinted _ hpath
      cases ht.symm.trans ht'
      cases hrun.symm.trans h

/-- A check that succeeds prints its report and tells by its exit code whether it has an error. -/
theorem run_check_of_ok (verbose : Bool) {report : Report}
    (h : (check fs env given r).outcome = .ok report) :
    let o := Invocation.run fs env ⟨verbose, given, .check r⟩
    o.failure = none ∧ o.printed = r.format.render report ∧
      o.exit = if report.hasErrors then 1 else 0 := by
  simp [Invocation.run, conclude, h]

/-- A check that fails prints no report. -/
theorem run_check_of_error (verbose : Bool) {failure : Failure}
    (h : (check fs env given r).outcome = .error failure) :
    let o := Invocation.run fs env ⟨verbose, given, .check r⟩
    o.failure = some failure ∧ o.printed = "" ∧ o.exit = 2 := by
  simp [Invocation.run, conclude, h]

end Check

/-- Checking several assemblies is checking each of them: their reports are put together in the
order of their paths, and what is printed shows them in the format that is asked for, unless
something stands in the way, and then no report is printed. -/
theorem run_check_eq_merged (fs : Files) (env : Environment) (verbose : Bool)
    (given : Option String) (r : CheckRequest) (paths : List String)
    (hpaths : (assembliesFor fs env r.path).outcome = .ok paths) :
    let o := Invocation.run fs env ⟨verbose, given, .check r⟩
    (paths ≠ [] ∧ Path.InOrder r.path paths) ∧
    (∀ config catalog reports,
      (loadConfig fs env (projectOf fs r.path) given).outcome = .ok config →
      fs.loadCatalog r.schema = .ok catalog →
      List.Forall₂ (ReportOn fs catalog (r.widen config) r.selection) paths reports →
      (check fs env given r).outcome = .ok (.merged reports) ∧ o.failure = none ∧
        r.format.Shows (.merged reports) o.printed ∧
        o.exit =
          if ∃ report ∈ reports, ∃ v ∈ report.violations, v.severity = .error then 1 else 0) ∧
    (Obstructed fs env given r paths →
      (∃ failure, o.failure = some failure) ∧ o.printed = "" ∧ o.exit = 2) := by
  intro o
  refine ⟨inOrder_of_assembliesFor hpaths, ?_, ?_⟩
  · intro config catalog reports hconfig hcatalog hreports
    have hcheck : (check fs env given r).outcome = .ok (.merged reports) :=
      (outcome_check_eq_ok_iff fs env given r _).2
        ⟨config, catalog, paths, reports, hconfig, hcatalog, hpaths, hreports, rfl⟩
    obtain ⟨hfailure, hprinted, hexit⟩ := run_check_of_ok verbose hcheck
    refine ⟨hcheck, hfailure, ?_, hexit.trans ?_⟩
    · rw [hprinted]
      exact shows_render r.format (.merged reports)
    · simp only [Report.hasErrors_merged]
  · intro hobstructed
    obtain ⟨failure, hcheck⟩ := hobstructed.exists_failure hpaths
    obtain ⟨hfailure, hprinted, hexit⟩ := run_check_of_error verbose hcheck
    exact ⟨⟨failure, hfailure⟩, hprinted, hexit⟩

end Command

namespace Sample

open Command

def classText (fqn : String) : String :=
  "\x7b\"fqn\":\"" ++ fqn ++ "\",\"base\":\"Base\","
    ++ "\"docs\":\x7b\"custom\":\x7b\"resource\":\"Sheet\"\x7d\x7d\x7d"

def assemblyText (name : String) (classes : List String) : String :=
  "\x7b\"name\":\"" ++ name ++ "\",\"classes\":["
    ++ String.intercalate "," (classes.map classText) ++ "]\x7d"

def pair (second : String) : Directory :=
  [("b.assembly.json", .file (.text second)),
    ("a.assembly.json", .file (.text (assemblyText "a" ["a.Leaf"])))]

/-- A tree with a pair of assemblies and another whose second one is cut off. -/
def tree : Files where
  root :=
    [("whole", .directory (pair (assemblyText "b" ["b.Leaf", "b.Twig"]))),
      ("torn", .directory (pair "[")),
      ("sheets.json", .file (.text "\x7b\"resources\":[\x7b\"type\":\"Sheet\"\x7d]\x7d")),
      ("lint.toml", .file (.text "core.construct = 'Base'\n"))]

/-- The check of one of the directories for two rules, with one class of `b` left out. -/
def request (path : String) (format : OutputFormat) : CheckRequest :=
  ⟨path, "/sheets.json", format, some "resource-interface, resource-class-extends-resource",
    ["*:b.Twig"]⟩

def checkRun (path : String) (format : OutputFormat) : Outcome :=
  Invocation.run tree [] ⟨false, some "/lint.toml", .check (request path format)⟩

def leafReport (fqn : String) (count : Nat) : Report where
  violations :=
    [⟨"resource-class-extends-resource", .error, fqn, fqn,
        "resource classes must extend @cdk/core.Resource", none⟩,
      ⟨"resource-interface", .warning, fqn, fqn, "every resource must have a resource interface",
        none⟩]
  resourcesChecked := count

/-- The files of a pair are checked in the order of their names, whichever the directory lists
first. -/
theorem assembliesFor_pair {path second : String} (hin : path ≠ Files.standardInput)
    (hdir : tree.find? path = some (.directory (pair second)))
    (hfault : (tree.outerScopes path).value.reverse.flatMap IgnoreScope.faults = [])
    (hfound : (assembliesAmong tree (tree.userRules (userIgnoreFile? tree [])).value
      ((tree.ignoreScope path).value :: (tree.outerScopes path).value) path (pair second)).value =
        [["b.assembly.json"], ["a.assembly.json"]]) :
    (assembliesFor tree [] path).outcome =
      .ok [Path.join path "a.assembly.json", Path.join path "b.assembly.json"] := by
  have hbefore : Path.before ["b.assembly.json"] ["a.assembly.json"] = false := by decide +kernel
  have hsorted : [["b.assembly.json"], ["a.assembly.json"]].mergeSort Path.before =
      [["a.assembly.json"], ["b.assembly.json"]] := by
    simp [List.mergeSort, List.MergeSort.Internal.splitInTwo, hbefore]
  rw [outcome_assembliesFor_directory _ hin hdir hfault hfound (List.cons_ne_nil _ _), hsorted]
  rfl

theorem reportOn_pair :
    List.Forall₂ (ReportOn tree ⟨[⟨"Sheet", []⟩]⟩
      { framework := { construct := "Base" }, exclude := ["*:b.Twig"] }
      (some ["resource-interface", "resource-class-extends-resource"]))
      ["/whole/a.assembly.json", "/whole/b.assembly.json"]
      [leafReport "a.Leaf" 1, leafReport "b.Leaf" 2] := by
  refine .cons ?_ (.cons ?_ .nil)
  · exact (outcome_lintFile_eq_ok_iff ..).1 (by decide +kernel)
  · exact (outcome_lintFile_eq_ok_iff ..).1 (by decide +kernel)

theorem exists_loadTypes_torn_eq_error :
    ∃ e, tree.loadTypes "/torn/b.assembly.json" = .error e := by
  have hnone : (tree.loadTypes "/torn/b.assembly.json").toOption.isNone = true := by
    decide +kernel
  cases h : tree.loadTypes "/torn/b.assembly.json" with
  | error e => exact ⟨e, rfl⟩
  | ok t =>
    rw [h] at hnone
    cases hnone

theorem whole_merged_torn_refused :
    ((assembliesFor tree [] "/whole").outcome =
        .ok ["/whole/a.assembly.json", "/whole/b.assembly.json"] ∧
      (checkRun "/whole" .text).printed =
        "[resource-class-extends-resource] a.Leaf\n"
          ++ "  \x1b[31merror\x1b[0m: resource classes must extend @cdk/core.Resource\n\n"
          ++ "[resource-interface] a.Leaf\n"
          ++ "  \x1b[33mwarning\x1b[0m: every resource must have a resource interface\n\n"
          ++ "[resource-class-extends-resource] b.Leaf\n"
          ++ "  \x1b[31merror\x1b[0m: resource classes must extend @cdk/core.Resource\n\n"
          ++ "[resource-interface] b.Leaf\n"
          ++ "  \x1b[33mwarning\x1b[0m: every resource must have a resource interface\n\n"
          ++ "\x1b[31mFound 2 error(s), 2 warning(s) in 3 resource(s)\x1b[0m\n" ∧
      (checkRun "/whole" .compact).printed =
        "error: a.Leaf [resource-class-extends-resource] resource classes must extend "
          ++ "@cdk/core.Resource\n"
          ++ "warning: a.Leaf [resource-interface] every resource must have a resource interface\n"
          ++ "error: b.Leaf [resource-class-extends-resource] resource classes must extend "
          ++ "@cdk/core.Resource\n"
          ++ "warning: b.Leaf [resource-interface] every resource must have a resource "
          ++ "interface\n" ∧
      (checkRun "/whole" .text).exit = 1) ∧
    ((assembliesFor tree [] "/torn").outcome =
        .ok ["/torn/a.assembly.json", "/torn/b.assembly.json"] ∧
      (checkRun "/torn" .text).printed = "" ∧ (checkRun "/torn" .text).exit = 2) := by
  have hwhole : (assembliesFor tree [] "/whole").outcome =
      .ok ["/whole/a.assembly.json", "/whole/b.assembly.json"] :=
    assembliesFor_pair (by decide) rfl (by decide +kernel) (by decide +kernel)
  have htorn : (assembliesFor tree [] "/torn").outcome =
      .ok ["/torn/a.assembly.json", "/torn/b.assembly.json"] :=
    assembliesFor_pair (by decide) rfl (by decide +kernel) (by decide +kernel)
  have hconfig : (loadConfig tree [] "/whole" (some "/lint.toml")).outcome =
      .ok { framework := { construct := "Base" } } := by cbv
  have hcatalog : tree.loadCatalog "/sheets.json" = .ok ⟨[⟨"Sheet", []⟩]⟩ := by cbv
  obtain ⟨e, hcut⟩ := exists_loadTypes_torn_eq_error
  obtain ⟨-, htext, -⟩ :=
    run_check_eq_merged tree [] false (some "/lint.toml") (request "/whole" .text) _ hwhole
  obtain ⟨-, hcompact, -⟩ :=
    run_check_eq_merged tree [] false (some "/lint.toml") (request "/whole" .compact) _ hwhole
  obtain ⟨-, -, hrefused⟩ :=
    run_check_eq_merged tree [] false (some "/lint.toml") (request "/torn" .text) _ htorn
  obtain ⟨-, -, hblocks, hexit⟩ := htext _ _ _ hconfig hcatalog reportOn_pair
  obtain ⟨-, -, hlines, -⟩ := hcompact _ _ _ hconfig hcatalog reportOn_pair
  obtain ⟨-, hnothing, hfailed⟩ := hrefused (.badAssembly (by simp) hcut)
  refine ⟨⟨hwhole, ?_, ?_, hexit⟩, htorn, hnothing, hfailed⟩
  · exact ((shows_text_iff _ _).1 hblocks).trans (by decide +kernel)
  · exact ((shows_compact_iff _ _).1 hlines).trans (by decide +kernel)

end Sample

end ResourceLint
