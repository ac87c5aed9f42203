import ResourceLint.Command.Output
import ResourceLint.Command.Settings
import ResourceLint.Files.Walk
import ResourceLint.LintRun
import ResourceLint.Text.Terminal

/-!
What the commands do. A run reads a file tree and an environment; what it prints, writes and exits
with is its outcome.
-/

namespace ResourceLint.Command

inductive Failure where
  | config (failed : BadConfig)
  | schema (path : String) (error : LoadError)
  | assembly (path : String) (error : LoadError)
  | missing (path : String)
  | walk (faults : List WalkFault)
  | nothingToCheck (path : String)
  | lint (error : LintError)
  | configExists (path : String)
  | unwritable (error : FileError)
  deriving DecidableEq, Repr

namespace Failure

def message : Failure → String
  | .config failed => "Failed to load config: " ++ failed.path
  | .schema path _ => "Failed to load schema: " ++ path
  | .assembly path _ => "Failed to load assembly: " ++ path
  | .missing path => "No such file or directory: " ++ path
  | .walk _ => "Failed to walk directory"
  | .nothingToCheck path => "No *" ++ assemblySuffix ++ " files found under " ++ path
  | .lint error => error.message
  | .configExists path =>
    "Configuration file already exists at " ++ path ++ ". Use --force to overwrite."
  | .unwritable error => error.message

def cause? : Failure → Option String
  | .config failed => some failed.error.message
  | .schema _ error => some error.message
  | .assembly _ error => some error.message
  | .walk faults => some (WalkFault.messages faults)
  | _ => none

def text (f : Failure) : String :=
  "Error: " ++ f.message ++ "\n"
    ++ match f.cause? with
      | none => ""
      | some cause =>
        "\nCaused by:\n    " ++ String.intercalate "\n    " (Text.split '\n' cause) ++ "\n"

end Failure

/-- The assembly files that a path stands for: itself, or those below it. -/
def assembliesFor (fs : Files) (env : Environment) (path : String) :
    Run Failure (List String) := do
  if fs.isFile path then return [path]
  else if !fs.isDirectory path then throw (.missing path)
  else
    match ← Run.mapError .walk (fs.assembliesBelow (userIgnoreFile? fs env) path) with
    | [] => throw (.nothingToCheck path)
    | paths => return paths

def CheckRequest.selection (r : CheckRequest) : Option (List String) :=
  r.rules.map (Text.listed Text.trim)

def lintFile (fs : Files) (catalog : Catalog) (config : Config) (selected : Option (List String))
    (path : String) : Run Failure Report := do
  let types ← Run.ofExcept ((fs.loadTypes path).mapError (.assembly path))
  Traced.debug ("Linting assembly " ++ types.name)
  Run.mapError .lint (lint types catalog config selected)

def lintFiles (fs : Files) (catalog : Catalog) (config : Config) (selected : Option (List String)) :
    List String → Run Failure Report
  | [] => return .empty
  | path :: paths => do
    let first ← lintFile fs catalog config selected path
    let others ← lintFiles fs catalog config selected paths
    return first.append others

def check (fs : Files) (env : Environment) (given : Option String) (r : CheckRequest) :
    Run Failure Report := do
  let config ← Run.mapError .config (loadConfig fs env (projectOf fs r.path) given)
  let config := { config with exclude := config.exclude ++ r.exclude }
  let catalog ← Run.ofExcept ((fs.loadCatalog r.schema).mapError (.schema r.schema))
  let paths ← assembliesFor fs env r.path
  Traced.info ("Checking " ++ Nat.repr paths.length ++ " assembly snapshot(s) against "
    ++ Nat.repr catalog.size ++ " schema resource(s)")
  lintFiles fs catalog config r.selection paths

def starterName : String := "construct-lint.toml"

def mayInit (fs : Files) (force : Bool) : Except Failure Unit :=
  if fs.has starterName && !force then .error (.configExists starterName)
  else if fs.isDirectory starterName then .error (.unwritable .isDirectory)
  else .ok ()

structure Outcome where
  exit : Nat
  /-- The lines that are shown of the log. They come before what is printed. -/
  log : List LogLine := []
  printed : String := ""
  failure : Option Failure := none
  /-- The files that are written, with their content. -/
  written : List (String × String) := []

/-- A line of the log as it is printed, from the level on. The time and the colour codes that the
subscriber puts before the level are left out. -/
def printedLine (l : LogLine) : String := l.level.name ++ " " ++ Text.tamed l.message

def Outcome.standardOutput (o : Outcome) : String :=
  String.join (o.log.map fun l => printedLine l ++ "\n") ++ o.printed

def isShown (verbose : Bool) (l : LogLine) : Bool := verbose || l.level != .debug

/-- The outcome of a command: what `finish` makes of its result, or a failure. -/
def conclude {α : Type} (verbose : Bool) (failureExit : Nat) (x : Run Failure α)
    (finish : α → Outcome) : Outcome :=
  let log := x.log.filter (isShown verbose)
  match x.outcome with
  | .error failure => { exit := failureExit, log := log, failure := some failure }
  | .ok a => { finish a with log := log }

namespace Invocation

def run (fs : Files) (env : Environment) (i : Invocation) : Outcome :=
  match i.action with
  | .check r =>
    conclude i.verbose 2 (check fs env i.config r) fun report =>
      { exit := if report.hasErrors then 1 else 0, printed := r.format.render report }
  | .listRules =>
    conclude i.verbose 1 (Run.mapError .config (loadConfig fs env "." i.config)) fun config =>
      { exit := 0, printed := ruleListing config }
  | .init force =>
    conclude i.verbose 1 (Run.ofExcept (mayInit fs force)) fun _ =>
      { exit := 0, printed := initNotice, written := [(starterName, starterConfig)] }

end Invocation

def Refusal.outcome : Refusal → Outcome
  | .misuse => { exit := 2 }
  | .helpAsked => { exit := 0, printed := usageText }
  | .versionAsked => { exit := 0, printed := versionText }

def run (fs : Files) (env : Environment) (args : List String) : Outcome :=
  match Invocation.ofArguments env args with
  | .error refusal => refusal.outcome
  | .ok i => i.run fs env

end ResourceLint.Command
