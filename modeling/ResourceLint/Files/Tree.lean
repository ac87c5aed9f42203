import ResourceLint.Data.Entries
import ResourceLint.Files.Content
import ResourceLint.Files.Path

/-!
A tree of files and directories, and what a path leads to in it.
-/

namespace ResourceLint

inductive Entry where
  | file (content : Content)
  | directory (entries : List (String × Entry))

instance : Inhabited Entry := ⟨.directory []⟩

abbrev Directory := List (String × Entry)

namespace Directory

/-- Puts an entry at the end of a path of names. Directories on the way are made, in place of
files if need be. -/
def put (e : Entry) : List String → Directory → Directory
  | [], d => d
  | [name], d => Data.setEntry name e d
  | name :: names, d =>
    let inner := match d.lookup name with
      | some (.directory entries) => entries
      | _ => []
    Data.setEntry name (.directory (put e names inner)) d

end Directory

/-- A file tree with a current directory, to which relative paths refer. -/
structure Files where
  root : Directory := []
  /-- The names that lead from the root to the current directory. -/
  current : List String := []

namespace Files

def nameLimit : Nat := 255

def pathLimit : Nat := 4095

/-- What steps lead to from a directory, with the directories above it, the nearest first. Two dots
lead upwards, and no higher than the root. -/
def follow (up : List Directory) : Entry → List String → Except FileError (List Directory × Entry)
  | e, [] => .ok (up, e)
  | .file _, _ :: _ => .error .notDirectory
  | .directory d, step :: steps =>
    if Path.isIdle step then follow up (.directory d) steps
    else if step = ".." then
      match up with
      | [] => follow [] (.directory d) steps
      | parent :: up => follow up (.directory parent) steps
    else if nameLimit < step.utf8ByteSize then .error .nameTooLong
    else
      match d.lookup step with
      | none => .error .notFound
      | some e => follow (d :: up) e steps

def route (fs : Files) (path : String) : List String :=
  if Path.isAbsolute path then Path.steps path else fs.current ++ Path.steps path

def locate (fs : Files) (path : String) : Except FileError (List Directory × Entry) :=
  if '\x00' ∈ path.toList then .error .nulInName
  else if path = "" then .error .notFound
  else if pathLimit < path.utf8ByteSize then .error .nameTooLong
  else follow [] (.directory fs.root) (fs.route path)

def find? (fs : Files) (path : String) : Option Entry :=
  (fs.locate path).toOption.map Prod.snd

def has (fs : Files) (path : String) : Bool := (fs.find? path).isSome

def isFile (fs : Files) (path : String) : Bool :=
  match fs.find? path with
  | some (.file _) => true
  | _ => false

def isDirectory (fs : Files) (path : String) : Bool :=
  match fs.find? path with
  | some (.directory _) => true
  | _ => false

def read (fs : Files) (path : String) : Except FileError String := do
  match (← fs.locate path).2 with
  | .directory _ => .error .isDirectory
  | .file (.broken _) => .error .notText
  | .file (.text s) => .ok s

/-- The names that a path leads through from the root, with two dots worked out by name alone. -/
def namesOf (fs : Files) (path : String) : List String :=
  (fs.route path).foldl
    (fun names step =>
      if Path.isIdle step then names else if step = ".." then names.dropLast else names ++ [step])
    []

def canonical (fs : Files) (path : String) : String :=
  "/" ++ String.intercalate "/" (fs.namesOf path)

def put (fs : Files) (path : String) (e : Entry) : Files :=
  { fs with root := fs.root.put e (fs.namesOf path) }

end Files

end ResourceLint
