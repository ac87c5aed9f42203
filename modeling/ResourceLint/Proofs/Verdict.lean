import ResourceLint.Proofs.CheckCommand

/-!
The check that a test suite makes and the check command, on the same assembly, catalogue and
configuration. They load these in different orders and ask different questions of the report, but
both have a report on exactly the same files, and they come to the same verdict on it.
-/

namespace ResourceLint

theorem Path.join_of_isAbsolute (base : String) {path : String} (h : isAbsolute path = true) :
    join base path = path := by
  simp [join, h]

/-- What reaches the threshold of errors are the errors. -/
theorem Report.reaching_error (r : Report) :
    r.reaching .error = r.violations.filter (·.severity = .error) := by
  refine List.filter_congr fun v _ => ?_
  rw [Bool.eq_iff_iff, Severity.atLeast_error_iff, decide_eq_true_iff]

/-- The text of a failing test starts with the number of violations that it shows. -/
theorem Report.exists_testReport_eq (r : Report) (level : Severity) :
    ∃ rest, r.testReport level =
      "\n=== construct-lint: " ++ Nat.repr (r.reaching level).length
        ++ " violation(s) ===\n\n" ++ rest := by
  refine ⟨String.join ((r.reaching level).map fun v => v.format ++ "\n")
    ++ ("Total: " ++ (r.tally ++ "\n")), ?_⟩
  unfold testReport
  simp only [String.append_assoc]

theorem Report.merged_singleton (r : Report) : merged [r] = r := by simp [merged]

/-- What a text is read from is a file. -/
theorem Files.isFile_of_read {fs : Files} {path text : String} (h : fs.read path = .ok text) :
    fs.isFile path = true := by
  obtain ⟨⟨up, e⟩, hfound, h⟩ := (bind_eq_ok_iff _ _ _).1 h
  cases e with
  | directory entries => cases h
  | file content => rw [isFile, find?, hfound]; rfl

/-- A path that is not a directory stands for itself alone. -/
theorem Command.assembliesFor_of_not_directory {fs : Files} (env : Environment) {path : String}
    (hdir : fs.isDirectory path = false) (paths : List String) :
    (assembliesFor fs env path).outcome = .ok paths ↔ fs.isFile path = true ∧ paths = [path] := by
  unfold assembliesFor
  rw [hdir]
  by_cases hfile : fs.isFile path = true
  · rw [if_pos hfile]
    simp only [hfile, true_and]
    exact ⟨fun h => (Except.ok.inj h).symm, fun h => congrArg Except.ok h.symm⟩
  · rw [if_neg hfile, if_pos (by decide)]
    exact ⟨fun h => (nomatch h), fun h => absurd h.1 hfile⟩

/-- Files from which a run has a report: all three are loaded, and the run succeeds. -/
def SoleReport (fs : Files) (assembly schema config : String) (report : Report) : Prop :=
  ∃ settings catalog t, fs.loadConfig config = .ok settings ∧ fs.loadCatalog schema = .ok catalog ∧
    fs.loadTypes assembly = .ok t ∧ (lint t catalog settings none).outcome = .ok report

section Verdict

variable {fs : Files} {assembly schema config : String}

/-- The check command reports on an assembly file exactly if there is a report on it. -/
theorem Command.outcome_check_eq_ok_iff_soleReport (env : Environment) (schema config : String)
    (format : OutputFormat) (hdir : fs.isDirectory assembly = false) (report : Report) :
    (check fs env (some config) ⟨assembly, schema, format, none, []⟩).outcome = .ok report ↔
      SoleReport fs assembly schema config report := by
  have hconfig : ∀ settings, (loadConfig fs env (projectOf fs assembly) (some config)).outcome =
      .ok settings ↔ fs.loadConfig config = .ok settings := by
    intro settings
    exact mapError_eq_ok_iff _ _ _
  have hwiden : ∀ settings : Config,
      CheckRequest.widen ⟨assembly, schema, format, none, []⟩ settings = settings := by
    intro settings
    simp [CheckRequest.widen]
  simp only [outcome_check_eq_ok_iff, hconfig, assembliesFor_of_not_directory env hdir, hwiden]
  constructor
  · intro h
    obtain ⟨settings, catalog, _, reports, hsettings, hcatalog, ⟨-, rfl⟩, hreports, rfl⟩ := h
    obtain ⟨first, others, hfirst, hothers, rfl⟩ := List.forall₂_cons_left_iff.1 hreports
    obtain rfl : others = [] := List.forall₂_nil_left_iff.1 hothers
    obtain ⟨t, ht, hrun⟩ := (reportOn_iff fs catalog settings none assembly first).1 hfirst
    rw [Report.merged_singleton]
    exact ⟨settings, catalog, t, hsettings, hcatalog, ht, hrun⟩
  · intro h
    obtain ⟨settings, catalog, t, hsettings, hcatalog, ht, hrun⟩ := h
    obtain ⟨text, a, hread, -, -⟩ := (loadTypes_eq_ok_iff fs assembly t).1 ht
    refine ⟨settings, catalog, [assembly], [report], hsettings, hcatalog,
      ⟨Files.isFile_of_read hread, rfl⟩, .cons ?_ .nil, (Report.merged_singleton report).symm⟩
    exact (reportOn_iff fs catalog settings none assembly report).2 ⟨t, ht, hrun⟩

inductive CheckFailure.EndsEarly : CheckFailure → Prop
  | config (path : String) (error : ConfigError) : EndsEarly (.config path error)
  | assembly (error : LoadError) : EndsEarly (.assembly error)
  | schema (error : LoadError) : EndsEarly (.schema error)
  | lint (error : LintError) : EndsEarly (.lint error)

/-- The check of a test suite on files with absolute paths, wherever the project's root is. -/
theorem ProjectCheck.run_eq (package : Option String) (hassembly : Path.isAbsolute assembly = true)
    (hschema : Path.isAbsolute schema = true) (hconfig : Path.isAbsolute config = true) :
    run fs package ⟨assembly, schema, some config, some "error"⟩ = (do
      let settings ← (fs.loadConfig config).mapError (.config config)
      let t ← (fs.loadTypes assembly).mapError .assembly
      let catalog ← (fs.loadCatalog schema).mapError .schema
      let report ← (lint t catalog settings none).outcome.mapError .lint
      if report.reaches .error then throw (.violations report .error)) := by
  have hload : loadConfig fs (fs.projectRoot package)
      ⟨assembly, schema, some config, some "error"⟩ =
        (fs.loadConfig config).mapError (.config config) := by
    simp only [loadConfig, configPath?, Path.join_of_isAbsolute _ hconfig]
  unfold run
  simp only [hload, Path.join_of_isAbsolute _ hassembly, Path.join_of_isAbsolute _ hschema]
  rfl

section Test

variable (package : Option String) (hassembly : Path.isAbsolute assembly = true)
  (hschema : Path.isAbsolute schema = true) (hconfig : Path.isAbsolute config = true)

include hassembly hschema hconfig

/-- With a report, the check of a test suite decides by its errors. -/
theorem ProjectCheck.run_of_soleReport {report : Report}
    (h : SoleReport fs assembly schema config report) :
    run fs package ⟨assembly, schema, some config, some "error"⟩ =
      if report.hasErrors then .error (.violations report .error) else .ok () := by
  obtain ⟨settings, catalog, t, hsettings, hcatalog, ht, hrun⟩ := h
  rw [run_eq package hassembly hschema hconfig, hsettings, hcatalog, ht]
  change (lint t catalog settings none).outcome.mapError CheckFailure.lint >>= _ = _
  rw [hrun]
  rfl

/-- Without a report, the check of a test suite fails on one of the files or on the run. -/
theorem ProjectCheck.run_of_not_soleReport
    (h : ∀ report, ¬ SoleReport fs assembly schema config report) :
    ∃ e, run fs package ⟨assembly, schema, some config, some "error"⟩ = .error e ∧ e.EndsEarly := by
  rw [run_eq package hassembly hschema hconfig]
  cases hsettings : fs.loadConfig config with
  | error e => exact ⟨_, rfl, .config config e⟩
  | ok settings =>
    cases ht : fs.loadTypes assembly with
    | error e => exact ⟨_, rfl, .assembly e⟩
    | ok t =>
      cases hcatalog : fs.loadCatalog schema with
      | error e => exact ⟨_, rfl, .schema e⟩
      | ok catalog =>
        cases hrun : (lint t catalog settings none).outcome with
        | ok report => exact absurd ⟨settings, catalog, t, hsettings, hcatalog, ht, hrun⟩ (h report)
        | error e =>
          refine ⟨.lint e, ?_, .lint e⟩
          change (lint t catalog settings none).outcome.mapError CheckFailure.lint >>= _ = _
          rw [hrun]
          rfl

/-- The three ways in which both checks of the same files end. -/
theorem ProjectCheck.run_cases (env : Command.Environment) (verbose : Bool)
    (format : Command.OutputFormat) (hdir : fs.isDirectory assembly = false) :
    let test := run fs package ⟨assembly, schema, some config, some "error"⟩
    let request : Command.CheckRequest := ⟨assembly, schema, format, none, []⟩
    let o := Command.Invocation.run fs env ⟨verbose, some config, .check request⟩
    (test = .ok () ∧ o.exit = 0) ∨
    (∃ report, (Command.check fs env (some config) request).outcome = .ok report ∧
      test = .error (.violations report .error) ∧ o.printed = format.render report ∧ o.exit = 1) ∨
    ∃ e, test = .error e ∧ e.EndsEarly ∧ o.exit = 2 := by
  intro test request o
  have hcheck := Command.outcome_check_eq_ok_iff_soleReport env schema config format hdir
  by_cases hsole : ∃ report, SoleReport fs assembly schema config report
  · obtain ⟨report, hsole⟩ := hsole
    have htest := run_of_soleReport package hassembly hschema hconfig hsole
    have hok := (hcheck report).2 hsole
    obtain ⟨-, hprinted, hexit⟩ := Command.run_check_of_ok verbose hok
    by_cases herrors : report.hasErrors = true
    · rw [if_pos herrors] at htest hexit
      exact Or.inr (Or.inl ⟨report, hok, htest, hprinted, hexit⟩)
    · rw [if_neg herrors] at htest hexit
      exact Or.inl ⟨htest, hexit⟩
  · obtain ⟨e, htest, hearly⟩ :=
      run_of_not_soleReport package hassembly hschema hconfig (not_exists.1 hsole)
    cases hout : (Command.check fs env (some config) request).outcome with
    | ok report => exact absurd ⟨report, (hcheck report).1 hout⟩ hsole
    | error failure =>
      obtain ⟨-, -, hexit⟩ := Command.run_check_of_error verbose hout
      exact Or.inr (Or.inr ⟨e, htest, hearly, hexit⟩)

/-- On the same files, the check of a test suite passes exactly if the check command exits with 0,
fails for its violations exactly if the command exits with 1, and fails before there is a report
exactly if the command exits with 2. The violations that the test counts are the errors that the
command reports. -/
theorem ProjectCheck.run_agrees_with_exit (env : Command.Environment) (verbose : Bool)
    (format : Command.OutputFormat) (hdir : fs.isDirectory assembly = false) :
    let test := run fs package ⟨assembly, schema, some config, some "error"⟩
    let request : Command.CheckRequest := ⟨assembly, schema, format, none, []⟩
    let o := Command.Invocation.run fs env ⟨verbose, some config, .check request⟩
    (test = .ok () ↔ o.exit = 0) ∧
    ((∃ report level, test = .error (.violations report level)) ↔ o.exit = 1) ∧
    ((∃ e, test = .error e ∧ e.EndsEarly) ↔ o.exit = 2) ∧
    (o.exit = 1 → ∃ report rest,
      (Command.check fs env (some config) request).outcome = .ok report ∧
      o.printed = format.render report ∧ test = .error (.violations report .error) ∧
      (CheckFailure.violations report .error).message =
        "\n=== construct-lint: "
          ++ Nat.repr (report.violations.filter (·.severity = .error)).length
          ++ " violation(s) ===\n\n" ++ rest) := by
  dsimp only
  rcases run_cases package hassembly hschema hconfig env verbose format hdir with
    ⟨htest, hexit⟩ | ⟨report, hcheck, htest, hprinted, hexit⟩ | ⟨e, htest, hearly, hexit⟩
  · simp [htest, hexit]
  · have hlate : ¬ (CheckFailure.violations report .error).EndsEarly := nofun
    obtain ⟨rest, hmessage⟩ := report.exists_testReport_eq .error
    rw [Report.reaching_error] at hmessage
    refine ⟨?_, ?_, ?_, ?_⟩
    · simp [htest, hexit]
    · simp [htest, hexit]
    · simp [htest, hexit, hlate]
    · intro _
      exact ⟨report, rest, hcheck, hprinted, htest, hmessage⟩
  · have hother : ∀ report level, e ≠ .violations report level := by
      rintro report level rfl
      cases hearly
    simp [htest, hexit, hearly, hother]

end Test

end Verdict

namespace Sample

/-- Both checks of the first sample assembly fail for its one error. -/
theorem first_fails_both :
    Path.isAbsolute "/whole/a.assembly.json" = true ∧ Path.isAbsolute "/sheets.json" = true ∧
      Path.isAbsolute "/lint.toml" = true ∧ tree.isDirectory "/whole/a.assembly.json" = false ∧
      (Command.Invocation.run tree [] ⟨false, some "/lint.toml",
        .check ⟨"/whole/a.assembly.json", "/sheets.json", .compact, none, []⟩⟩).exit = 1 ∧
      ∃ report level, ProjectCheck.run tree none
        ⟨"/whole/a.assembly.json", "/sheets.json", some "/lint.toml", some "error"⟩ =
          .error (.violations report level) := by
  have hassembly : Path.isAbsolute "/whole/a.assembly.json" = true := by decide +kernel
  have hschema : Path.isAbsolute "/sheets.json" = true := by decide +kernel
  have hconfig : Path.isAbsolute "/lint.toml" = true := by decide +kernel
  have hdir : tree.isDirectory "/whole/a.assembly.json" = false := by decide +kernel
  obtain ⟨-, hfails, -, -⟩ := ProjectCheck.run_agrees_with_exit none hassembly hschema hconfig []
    false .compact hdir
  have hexit : (Command.Invocation.run tree [] ⟨false, some "/lint.toml",
      .check ⟨"/whole/a.assembly.json", "/sheets.json", .compact, none, []⟩⟩).exit = 1 := by
    decide +kernel
  exact ⟨hassembly, hschema, hconfig, hdir, hexit, hfails.2 hexit⟩

end Sample

end ResourceLint
