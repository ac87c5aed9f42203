import ResourceLint.Command.UserIgnore
import ResourceLint.Loading
import ResourceLint.Log
import ResourceLint.ProjectCheck

/-!
Which configuration file a command uses: the one given, or else the first there is of the project's
and the user's own.
-/

namespace ResourceLint.Command

def configDirVariable : String := "CONSTRUCT_LINT_CONFIG_DIR"

def userDirectory? (env : Environment) : Option String :=
  env.lookup configDirVariable
    <|> (homeDirectory? env).map (Path.join · ".construct-lint")

/-- The directory whose configuration applies to a path: itself, or else the one above it. -/
def projectOf (fs : Files) (path : String) : String :=
  if fs.isDirectory path then path
  else
    match Path.parent? path with
    | none => "."
    | some parent => if parent = "" then "." else parent

/-- The files that may hold the configuration of a project, the preferred one first. -/
def configCandidates (env : Environment) (project : String) : List String :=
  configNames.map (Path.join project)
    ++ ((userDirectory? env).map (Path.join · "config.toml")).toList

def configPath? (fs : Files) (env : Environment) (project : String) (given : Option String) :
    Option String :=
  match given with
  | some path => some path
  | none => (configCandidates env project).find? fs.isFile

structure BadConfig where
  path : String
  error : ConfigError
  deriving DecidableEq, Repr

def loadConfig (fs : Files) (env : Environment) (project : String) (given : Option String) :
    Run BadConfig Config :=
  match configPath? fs env project given with
  | none => do
    Traced.debug "No configuration found, using defaults"
    return {}
  | some path => do
    Traced.debug ("Using configuration " ++ path)
    Run.ofExcept ((fs.loadConfig path).mapError (⟨path, ·⟩))

end ResourceLint.Command
