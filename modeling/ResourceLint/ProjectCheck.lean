import ResourceLint.LintRun
import ResourceLint.Loading

/-!
The check that a test suite makes of its own project: it passes, or it fails with a text that says
why. Relative paths refer to the project's root.
-/

namespace ResourceLint

def configNames : List String := ["construct-lint.toml", ".construct-lint.toml"]

structure ProjectCheck where
  assembly : String
  schema : String
  config : Option String := none
  /-- The severity that fails the check, in place of the configured one. -/
  failOn : Option String := none

inductive CheckFailure where
  | config (path : String) (error : ConfigError)
  | threshold (error : ConfigError)
  | assembly (error : LoadError)
  | schema (error : LoadError)
  | lint (error : LintError)
  /-- Violations that reach the threshold. -/
  | violations (report : Report) (threshold : Severity)

def CheckFailure.message : CheckFailure → String
  | .config path error =>
    "construct-lint: failed to load config from " ++ path ++ ": " ++ error.message
  | .threshold error => "construct-lint: " ++ error.message
  | .assembly error => "construct-lint: failed to load assembly: " ++ error.message
  | .schema error => "construct-lint: failed to load schema: " ++ error.message
  | .lint error => "construct-lint: " ++ error.message
  | .violations report level => report.testReport level

def manifestName : String := "Cargo.toml"

namespace Files

def isWorkspace (fs : Files) (directory : String) : Bool :=
  match fs.read (Path.join directory manifestName) with
  | .error _ => false
  | .ok text => (Toml.entries? text).any fun entries => (entries.lookup "workspace").isSome

/-- The nearest workspace at or above a package, or the package itself. -/
def workspaceOf (fs : Files) (package : String) : String :=
  ((package :: Path.parents package).find? fs.isWorkspace).getD package

def currentPath (fs : Files) : String := "/" ++ String.intercalate "/" fs.current

def projectRoot (fs : Files) (package : Option String) : String :=
  match package with
  | some package => fs.workspaceOf package
  | none => fs.currentPath

end Files

namespace ProjectCheck

/-- The configuration file: the one given, or else the first that exists in the root. -/
def configPath? (fs : Files) (root : String) (c : ProjectCheck) : Option String :=
  match c.config with
  | some path => some (Path.join root path)
  | none => (configNames.map (Path.join root)).find? fs.has

def loadConfig (fs : Files) (root : String) (c : ProjectCheck) : Except CheckFailure Config :=
  match c.configPath? fs root with
  | none => .ok {}
  | some path => (fs.loadConfig path).mapError (.config path)

def threshold (c : ProjectCheck) (config : Config) : Except ConfigError Severity :=
  match c.failOn with
  | some written => Severity.named written
  | none => config.threshold

def run (fs : Files) (package : Option String) (c : ProjectCheck) : Except CheckFailure Unit := do
  let root := fs.projectRoot package
  let config ← c.loadConfig fs root
  let threshold ← (c.threshold config).mapError .threshold
  let types ← (fs.loadTypes (Path.join root c.assembly)).mapError .assembly
  let catalog ← (fs.loadCatalog (Path.join root c.schema)).mapError .schema
  let report ← ((lint types catalog config none).outcome).mapError .lint
  if report.reaches threshold then throw (.violations report threshold)

end ProjectCheck

end ResourceLint
