import ResourceLint.Command.Footprint
import ResourceLint.Command.Run

/-!
The program: it reads what a run may look at, carries the run out and puts its outcome into effect.
-/

namespace ResourceLint.Program

open Command

def readContent (path : String) : IO Content := do
  return .ofBytes (← IO.FS.readBinFile path)

/-- What stands at a path. The content of a directory is left out. -/
def entryAt (path : String) : IO (Option Entry) := do
  let place := (← IO.currentDir) / path
  if ← place.isDir then return some (.directory [])
  else if ← place.pathExists then return some (.file (← readContent path))
  else return none

/-- What a search for assemblies sees of a directory. Only assemblies come with their content. -/
partial def searchedDirectory (path : String) : IO Directory := do
  let place := (← IO.currentDir) / path
  let mut entries : Directory := []
  for found in ← place.readDir do
    let name := found.fileName
    let inner := Path.join path name
    match (← found.path.symlinkMetadata).type with
    | .dir => entries := entries ++ [(name, .directory (← searchedDirectory inner))]
    | .file =>
      let content ← if name.endsWith assemblySuffix then readContent inner else pure (.text "")
      entries := entries ++ [(name, .file content)]
    | _ => pure ()
  return entries

/-- Reads the files that a run looks at and that have not been read, until no more are named. -/
partial def loadFiles (env : Environment) (i : Invocation) (fs : Files) (known : List String) :
    IO Files := do
  let wanted := (i.footprint fs env).filter (· ∉ known)
  if wanted.isEmpty then return fs
  let mut fs := fs
  for path in wanted do
    if !fs.isDirectory path then
      match ← entryAt path with
      | some e => fs := fs.put path e
      | none => pure ()
  loadFiles env i fs (known ++ wanted)

def loadTree (current : String) (env : Environment) (i : Invocation) : IO Files := do
  let start : Files := { current := (Path.steps current).filter (!Path.isIdle ·) }
  let mut fs := start.put "." (.directory [])
  match i.searched with
  | none => pure ()
  | some path =>
    if ← ((← IO.currentDir) / path).isDir then
      fs := fs.put path (.directory (← searchedDirectory path))
  loadFiles env i fs []

def loadEnvironment : IO Environment := do
  let mut env : Environment := []
  for name in [schemaVariable, configDirVariable, settingsVariable, "HOME"] do
    match ← IO.getEnv name with
    | some value => env := env ++ [(name, value)]
    | none => pure ()
  return env

def deliver (o : Outcome) : IO UInt32 := do
  for (path, text) in o.written do
    IO.FS.writeFile path text
  IO.print o.standardOutput
  match o.failure with
  | some failure => IO.eprint failure.text
  | none => pure ()
  return o.exit.toUInt32

end ResourceLint.Program

open ResourceLint ResourceLint.Command in
def main (args : List String) : IO UInt32 := do
  let env ← Program.loadEnvironment
  match Invocation.ofArguments env args with
  | .error .misuse =>
    IO.eprint usageText
    Program.deliver Refusal.misuse.outcome
  | .error refusal => Program.deliver refusal.outcome
  | .ok i =>
    let fs ← Program.loadTree (← IO.currentDir).toString env i
    Program.deliver (i.run fs env)
