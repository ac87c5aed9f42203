import ResourceLint.Files.IgnoreScope

/-!
The assembly files below a directory. Those that ignore files leave out are left out, and so are
hidden ones that no ignore file keeps.
-/

namespace ResourceLint

def assemblySuffix : String := ".assembly.json"

mutual

/-- The assembly files at an entry, as names from it on. The ignore files of a directory are read
whether or not it is left out. -/
def assembliesAt (fs : Files) (user : List IgnoreRule) (scopes : List IgnoreScope)
    (path name : String) : Entry → Traced (List (List String))
  | .file _ => do
    let omitted ← isOmitted user scopes (fs.visit path false)
    return if name.endsWith assemblySuffix && !omitted then [[name]] else []
  | .directory entries => do
    let omitted ← isOmitted user scopes (fs.visit path true)
    let scope ← fs.ignoreScope path
    if omitted then return []
    else
      let found ← assembliesAmong fs user (scope :: scopes) path entries
      return found.map (name :: ·)

def assembliesAmong (fs : Files) (user : List IgnoreRule) (scopes : List IgnoreScope)
    (path : String) : List (String × Entry) → Traced (List (List String))
  | [] => return []
  | (name, e) :: entries => do
    let here ← assembliesAt fs user scopes (Path.join path name) name e
    let others ← assembliesAmong fs user scopes path entries
    return here ++ others

end

namespace Files

/-- The rules of the user's own ignore file. Its faults are for the log only. -/
def userRules (fs : Files) : Option String → Traced (List IgnoreRule)
  | none => return []
  | some path => do
    if fs.isFile path then
      let (rules, faults) ← fs.ignoreRules path
      if !faults.isEmpty then Traced.debug (WalkFault.messages faults)
      return rules
    else return []

/-- The path that stands for standard input, which holds no files. -/
def standardInput : String := "-"

/-- The paths of the assembly files below a directory, in the order of their steps. -/
def assembliesBelow (fs : Files) (userFile : Option String) (path : String) :
    Run (List WalkFault) (List String) := do
  let user ← fs.userRules userFile
  if path = standardInput then return []
  let outer ← fs.outerScopes path
  match outer.reverse.flatMap IgnoreScope.faults with
  | fault :: faults => throw (fault :: faults)
  | [] =>
    match fs.find? path with
    | some (.directory entries) =>
      let scope ← fs.ignoreScope path
      let found ← assembliesAmong fs user (scope :: outer) path entries
      return (found.mergeSort Path.before).map fun names => names.foldl Path.join path
    | _ => return []

end Files

end ResourceLint
