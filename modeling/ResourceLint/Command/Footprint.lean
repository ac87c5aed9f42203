import ResourceLint.Command.Settings
import ResourceLint.Files.IgnoreScope

/-!
What a run may look at in the file tree, so that no more than that need be read before it. Some
files name others, so it is told from what is known of the tree so far.
-/

namespace ResourceLint.Command

def scopeFiles (fs : Files) (directory : String) : List String :=
  [".git", ".jj", ".gitignore", ".ignore"].map (Path.join directory)
    ++ (match fs.linkedDirectory? directory with
      | .ok (some git) => [Files.sharedName git]
      | _ => [])
    ++ (match fs.excludeFile? directory with
      | .ok (some path) => [path]
      | _ => [])

mutual

def directoriesAt (path : String) : Entry → List String
  | .file _ => []
  | .directory entries => path :: directoriesAmong path entries

def directoriesAmong (path : String) : List (String × Entry) → List String
  | [] => []
  | (name, e) :: entries =>
    directoriesAt (Path.join path name) e ++ directoriesAmong path entries

end

def scopeDirectories (fs : Files) (path : String) : List String :=
  Path.parents (fs.canonical path) ++ ((fs.find? path).map (directoriesAt path)).getD []

/-- The configuration files that may apply to a path, whether it is a directory or not. -/
def configFiles (env : Environment) (given : Option String) (path : String) : List String :=
  match given with
  | some config => [config]
  | none =>
    configCandidates env path ++ (Path.parents path ++ ["."]).flatMap (configCandidates env)

def Invocation.searched (i : Invocation) : Option String :=
  match i.action with
  | .check r => some r.path
  | _ => none

def wayTo (fs : Files) (path : String) : List String :=
  let canonical := fs.canonical path
  ((Path.parents canonical).reverse ++ canonical :: (Path.parents path).reverse ++ [path]).filter
    (· != "")

/-- The files that a run looks at, as far as can be told. -/
def Invocation.footprint (fs : Files) (env : Environment) (i : Invocation) : List String :=
  match i.action with
  | .check r =>
    (r.path :: r.schema :: configFiles env i.config r.path
        ++ gitSettingsFiles env ++ (userIgnoreFile? fs env).toList).flatMap (wayTo fs)
      ++ (scopeDirectories fs r.path).flatMap (scopeFiles fs)
  | .listRules => (configFiles env i.config ".").flatMap (wayTo fs)
  | .init _ => configNames

end ResourceLint.Command
