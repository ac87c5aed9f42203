import ResourceLint.Files.IgnoreRule
import ResourceLint.Files.Tree
import ResourceLint.Log
import ResourceLint.Text.Scan

/-!
What the ignore files of directories make of the entries below them. A directory may have an
`.ignore` file, a `.gitignore` file, and if it is a repository a file of exclusions of its own. The
last two count only within a repository: in the directories from an entry's own up to the nearest
that is one.
-/

namespace ResourceLint

structure IgnoreScope where
  /-- How many steps lead from the root to the directory. -/
  depth : Nat
  ignore : List IgnoreRule
  gitIgnore : List IgnoreRule
  gitExclude : List IgnoreRule
  isRepository : Bool
  faults : List WalkFault := []

namespace Files

/-- The rules of an ignore file, if there is one, and its faults. A directory in its place has
none. -/
def ignoreRules (fs : Files) (path : String) : Traced (List IgnoreRule × List WalkFault) :=
  match fs.find? path with
  | none => return ([], [])
  | some e => do
    Traced.debug ("opened gitignore file: " ++ path)
    let found := match e with
      | .file content => IgnoreRule.ofLines path content.lines
      | .directory _ => ([], [])
    Traced.lines ((IgnoreRule.readingLog found.1).map fun message => ⟨.debug, message⟩)
    return found

def firstLine? (fs : Files) (path : String) : Except FileError (Option String) :=
  match fs.find? path with
  | none => .ok none
  | some (.directory _) => .error .isDirectory
  | some (.file content) => content.firstLine?

/-- The directory of a linked working copy's own data, which a file in place of the repository's
directory names. -/
def linkedDirectory? (fs : Files) (directory : String) : Except WalkFault (Option String) := do
  let path := Path.join directory ".git"
  let line ← (fs.firstLine? path).mapError (.unreadable path)
  return (line.bind fun l => Text.dropWord "gitdir: ".toList l.toList).map String.ofList

def sharedName (git : String) : String := Path.join git "commondir"

/-- The directory that a linked working copy shares with its repository. A relative name starts
with a dot. -/
def sharedDirectory? (fs : Files) (git : String) : Except WalkFault (Option String) := do
  let line ← (fs.firstLine? (sharedName git)).mapError (.unreadable (sharedName git))
  return line.map fun shared =>
    if shared.toList.head? = some '.' then Path.join git shared else shared

def excludeFile? (fs : Files) (directory : String) : Except WalkFault (Option String) := do
  let git ←
    if fs.isFile (Path.join directory ".git") then
      match ← fs.linkedDirectory? directory with
      | none => pure none
      | some git => fs.sharedDirectory? git
    else pure (some (Path.join directory ".git"))
  return git.map (Path.join · "info/exclude")

def excludeRules (fs : Files) (directory : String) :
    Traced (List IgnoreRule × List WalkFault) :=
  match fs.excludeFile? directory with
  | .error fault => return ([], [fault])
  | .ok none => return ([], [])
  | .ok (some path) => fs.ignoreRules path

def ignoreScope (fs : Files) (directory : String) : Traced IgnoreScope := do
  let ignore ← fs.ignoreRules (Path.join directory ".ignore")
  let gitIgnore ← fs.ignoreRules (Path.join directory ".gitignore")
  let gitExclude ← fs.excludeRules directory
  return {
    depth := (fs.namesOf directory).length
    ignore := ignore.1
    gitIgnore := gitIgnore.1
    gitExclude := gitExclude.1
    isRepository := fs.has (Path.join directory ".git") || fs.has (Path.join directory ".jj")
    faults := ignore.2 ++ gitIgnore.2 ++ gitExclude.2 }

/-- The scopes of the directories above a path, the nearest first. They are read from the root
downwards. -/
def outerScopes (fs : Files) (path : String) : Traced (List IgnoreScope) := do
  let scopes ← (Path.parents (fs.canonical path)).reverse.mapM fs.ignoreScope
  return scopes.reverse

end Files

/-- The items up to the first with a property, that one included. Without one there are none. -/
def upToFirst {α : Type} (p : α → Bool) : List α → List α
  | [] => []
  | a :: as =>
    if p a then [a]
    else
      match upToFirst p as with
      | [] => []
      | taken => a :: taken

structure Visit where
  path : String
  /-- The names that lead from the root to the entry. -/
  names : List String
  /-- The path as the user's own rules see it. -/
  userPath : String
  isDirectory : Bool

namespace Visit

def name (v : Visit) : String := v.names.getLastD ""

def isHidden (v : Visit) : Bool := v.name.toList.head? = some '.'

def lastRule? (v : Visit) (depth : Nat) (rules : List IgnoreRule) : Option IgnoreRule :=
  IgnoreRule.last? rules (String.intercalate "/" (v.names.drop depth)) v.isDirectory

/-- The rule that decides on an entry of the first of some directories, given by their scopes.
`.ignore` files go first, then those of the repository from the nearest on, then the user's. -/
def rule? (v : Visit) (user : List IgnoreRule) (scopes : List IgnoreScope) : Option IgnoreRule :=
  let repository := upToFirst IgnoreScope.isRepository scopes
  scopes.findSome? (fun s => v.lastRule? s.depth s.ignore)
    <|> repository.findSome? (fun s => v.lastRule? s.depth s.gitIgnore)
    <|> repository.findSome? (fun s => v.lastRule? s.depth s.gitExclude)
    <|> if repository.isEmpty then none else IgnoreRule.last? user v.userPath v.isDirectory

end Visit

namespace Files

/-- The path of an entry as the user's own rules see it: from the current directory on, if it is
written so or leads through that directory from the root. -/
def userPath (fs : Files) (path : String) : String :=
  let cs := (Text.dropWord "./".toList path.toList).getD path.toList
  let base := "/" ++ String.intercalate "/" fs.current
  String.ofList <|
    match Text.dropWord base.toList cs with
    | some rest => (Text.dropChar '/' rest).getD rest
    | none => cs

def visit (fs : Files) (path : String) (isDirectory : Bool) : Visit :=
  ⟨path, fs.namesOf path, fs.userPath path, isDirectory⟩

end Files

/-- Whether a search leaves out an entry of the first directory. The log says so if it does, or if a
rule keeps the entry. -/
def isOmitted (user : List IgnoreRule) (scopes : List IgnoreScope) (v : Visit) : Traced Bool := do
  match v.rule? user scopes with
  | some r =>
    if r.keeps then
      Traced.debug ("whitelisting " ++ v.path ++ ": Whitelist(IgnoreMatch(Gitignore("
        ++ r.description ++ ")))")
    else
      Traced.debug ("ignoring " ++ v.path ++ ": Ignore(IgnoreMatch(Gitignore("
        ++ r.description ++ ")))")
    return !r.keeps
  | none =>
    if v.isHidden then Traced.debug ("ignoring " ++ v.path ++ ": Ignore(IgnoreMatch(Hidden))")
    return v.isHidden

end ResourceLint
