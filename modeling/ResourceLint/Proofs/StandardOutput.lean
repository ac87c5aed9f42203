import ResourceLint.Proofs.CheckCommand
import ResourceLint.Proofs.Evaluation

/-!
What a check that is asked for JSON leaves on standard output. The report is printed as one
document, from which it is read back. But the log goes to standard output too, a check that succeeds
always logs something, and no document starts as a line of the log does. So the output as a whole is
never a document, whatever is checked.
-/

namespace ResourceLint

open Data

namespace Command

/-- The name of a level starts with a character that starts no token. -/
theorem exists_levelName_eq_cons (level : LogLevel) :
    ∃ c cs, level.name.toList = c :: cs ∧ Json.isSpace c = false ∧
      Json.punctuation? c = none ∧ Json.startsScalar c = false := by
  cases level with
  | debug => exact ⟨'D', _, rfl, by decide, rfl, by decide⟩
  | info => exact ⟨'I', _, rfl, by decide, rfl, by decide⟩
  | warn => exact ⟨'W', _, rfl, by decide, rfl, by decide⟩

/-- No document starts as a line of the log does. -/
theorem parse_printedLine (limit : Nat) (l : LogLine) (rest : String) :
    Json.parse limit (printedLine l ++ rest) = none := by
  obtain ⟨c, cs, hname, hspace, hpunctuation, hscalar⟩ := exists_levelName_eq_cons l.level
  have htext : (printedLine l ++ rest).toList =
      c :: (cs ++ ' ' :: ((Text.tamed l.message).toList ++ rest.toList)) := by
    simp [printedLine, hname]
  rw [Json.parse, htext, Json.lex_eq_none hspace hpunctuation hscalar]
  rfl

/-- Output that starts with a log is no document. -/
theorem parse_standardOutput (limit : Nat) {o : Outcome} (h : o.log ≠ []) :
    Json.parse limit o.standardOutput = none := by
  obtain ⟨l, ls, hlog⟩ := List.exists_cons_of_ne_nil h
  have hout : o.standardOutput = printedLine l ++
      ("\n" ++ String.join (ls.map fun l => printedLine l ++ "\n") ++ o.printed) := by
    simp [Outcome.standardOutput, hlog, String.append_assoc]
  rw [hout, parse_printedLine]

section Check

variable {fs : Files} {env : Environment} {given : Option String} {r : CheckRequest}

/-- A check that succeeds has said what it checks. -/
theorem exists_info_mem_log_check {report : Report}
    (h : (check fs env given r).outcome = .ok report) :
    ∃ l ∈ (check fs env given r).log, l.level = .info := by
  obtain ⟨config, catalog, paths, -, hconfig, hcatalog, hpaths, -, -⟩ :=
    (outcome_check_eq_ok_iff fs env given r report).1 h
  have hconfig' : (Run.mapError Failure.config
      (loadConfig fs env (projectOf fs r.path) given)).outcome = .ok config :=
    (mapError_eq_ok_iff _ _ _).2 hconfig
  have hcatalog' : (Run.ofExcept ((fs.loadCatalog r.schema).mapError
      (Failure.schema r.schema))).outcome = .ok catalog :=
    (mapError_eq_ok_iff _ _ _).2 hcatalog
  obtain ⟨⟨front, hlog⟩, -⟩ : (check fs env given r).EndsIn (do
      Traced.info ("Checking " ++ Nat.repr paths.length ++ " assembly snapshot(s) against "
        ++ Nat.repr catalog.size ++ " schema resource(s)")
      lintFiles fs catalog (r.widen config) r.selection paths) :=
    .bind hconfig' (.bind hcatalog' (.bind hpaths (.refl _)))
  rw [hlog]
  exact ⟨⟨.info, _⟩, List.mem_append_right _ (List.mem_append_left _ List.mem_cons_self), rfl⟩

theorem log_run_check_ne_nil (verbose : Bool) {report : Report}
    (h : (check fs env given r).outcome = .ok report) :
    (Invocation.run fs env ⟨verbose, given, .check r⟩).log ≠ [] := by
  obtain ⟨l, hl, hlevel⟩ := exists_info_mem_log_check h
  have hlog : (Invocation.run fs env ⟨verbose, given, .check r⟩).log =
      (check fs env given r).log.filter (isShown verbose) := by
    simp [Invocation.run, conclude, h]
  have hshown : isShown verbose l = true := by simp [isShown, hlevel]
  rw [hlog]
  exact List.ne_nil_of_mem (List.mem_filter.2 ⟨hl, hshown⟩)

end Check

/-- A check that is asked for JSON and comes to a verdict prints its report as a document, from
which the report is read back. What stands on standard output is the log and then that document,
and together they are none. -/
theorem standardOutput_of_json_check (fs : Files) (env : Environment) (args : List String)
    (i : Invocation) (r : CheckRequest) (hargs : Invocation.ofArguments env args = .ok i)
    (haction : i.action = .check r) (hformat : r.format = .json)
    (hexit : (run fs env args).exit = 0 ∨ (run fs env args).exit = 1) :
    ∃ report, (check fs env i.config r).outcome = .ok report ∧
      (Json.decode Report.decode (run fs env args).printed = some report ↔
        report.resourcesChecked < Nat.pow 2 64) ∧
      (run fs env args).log ≠ [] ∧
      (run fs env args).standardOutput =
        String.join ((run fs env args).log.map fun l => printedLine l ++ "\n")
          ++ (run fs env args).printed ∧
      ∀ limit, Json.parse limit (run fs env args).standardOutput = none := by
  obtain ⟨verbose, given, action⟩ := i
  obtain rfl : action = .check r := haction
  have hrun : run fs env args = Invocation.run fs env ⟨verbose, given, .check r⟩ := by
    rw [run, hargs]
  rw [hrun] at hexit ⊢
  cases hcheck : (check fs env given r).outcome with
  | error failure =>
    -- A check that fails exits with neither code.
    obtain ⟨-, -, htwo⟩ := run_check_of_error verbose hcheck
    rw [htwo] at hexit
    omega
  | ok report =>
    obtain ⟨-, hprinted, -⟩ := run_check_of_ok verbose hcheck
    have hlog := log_run_check_ne_nil verbose hcheck
    refine ⟨report, rfl, ?_, hlog, rfl, fun limit => parse_standardOutput limit hlog⟩
    rw [hprinted, hformat, OutputFormat.render, decode_reportJson]
    simp

end Command

namespace Sample

open Command

def sheetTree : Files where
  root :=
    [("a.assembly.json", .file (.text ("\x7b\"name\":\"a\",\"classes\":[\x7b\"fqn\":\"a.Leaf\","
        ++ "\"base\":\"constructs.Construct\","
        ++ "\"docs\":\x7b\"custom\":\x7b\"resource\":\"Sheet\"\x7d\x7d\x7d]\x7d"))),
      ("s.json", .file (.text "\x7b\"resources\":[\x7b\"type\":\"Sheet\"\x7d]\x7d"))]

def jsonArguments : List String :=
  ["check", "--schema", "s.json", "--format", "json", "a.assembly.json"]

theorem sheet_output :
    (run sheetTree [] jsonArguments).exit = 1 ∧
      (run sheetTree [] jsonArguments).log ≠ [] ∧
      Json.parse Json.depthLimit (run sheetTree [] jsonArguments).standardOutput = none := by
  have hexit : (run sheetTree [] jsonArguments).exit = 1 := by decide +kernel
  obtain ⟨-, -, -, hlog, -, hnone⟩ := standardOutput_of_json_check sheetTree [] jsonArguments
    ⟨false, none, .check ⟨"a.assembly.json", "s.json", .json, none, []⟩⟩
    ⟨"a.assembly.json", "s.json", .json, none, []⟩ (by decide +kernel) rfl rfl (Or.inr hexit)
  exact ⟨hexit, hlog, hnone Json.depthLimit⟩

def bareTree : Files where
  root :=
    [("a.assembly.json", .file (.text "\x7b\"name\":\"a\"\x7d")),
      ("s.json", .file (.text "\x7b\"resources\":[]\x7d"))]

theorem bare_output_not_document :
    (run bareTree [] jsonArguments).exit = 0 ∧
      Json.decode Report.decode (run bareTree [] jsonArguments).printed = some .empty ∧
      Json.decode Report.decode (run bareTree [] jsonArguments).standardOutput = none := by
  have hcheck : (check bareTree [] none
      ⟨"a.assembly.json", "s.json", .json, none, []⟩).outcome = .ok .empty := by decide +kernel
  have hargs : Invocation.ofArguments [] jsonArguments =
      .ok ⟨false, none, .check ⟨"a.assembly.json", "s.json", .json, none, []⟩⟩ := by decide +kernel
  obtain ⟨-, hprinted, hexit⟩ := run_check_of_ok false hcheck
  have hnone := parse_standardOutput Json.depthLimit (log_run_check_ne_nil false hcheck)
  rw [run, hargs]
  refine ⟨hexit, ?_, ?_⟩
  · rw [hprinted]
    exact decode_reportJson .empty
  · rw [Json.decode, hnone]
    rfl

end Sample

end ResourceLint
