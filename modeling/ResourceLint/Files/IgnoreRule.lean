import ResourceLint.Files.Error
import ResourceLint.Files.PatternIndex
import ResourceLint.Text.Blank

/-!
The rules of ignore files. Each line of such a file has a pattern of entries to leave out, unless it
is blank or a comment. After an exclamation mark it has one of entries to keep.
-/

namespace ResourceLint

inductive WalkFault where
  | unreadable (path : String) (error : FileError)
  | badRule (source : String) (line : Nat) (written : String) (fault : PathPattern.Fault)
  deriving DecidableEq, Repr

namespace WalkFault

def message : WalkFault → String
  | .unreadable path error => path ++ ": " ++ error.message
  | .badRule source line written fault =>
    source ++ ": line " ++ Nat.repr line ++ ": error parsing glob '" ++ written ++ "': "
      ++ fault.message

def messages (faults : List WalkFault) : String := String.intercalate "\n" (faults.map message)

end WalkFault

structure IgnoreRule where
  /-- The path of the file that the rule stands in. -/
  source : String
  /-- The line without the blanks at its end. -/
  written : String
  /-- The pattern of paths from the directory of the file on. -/
  pattern : PathPattern
  keeps : Bool
  onlyDirectories : Bool

namespace IgnoreRule

/-- A line without the blanks at its end, unless the last of them is escaped. -/
def trimLine (line : String) : String :=
  if line.endsWith "\\ " then line else Text.trimEnd line

/-- The marks at the start of a line: whether it keeps entries, whether its pattern starts at the
directory of the file, and what follows. -/
def dropMarks : List Char → Bool × Bool × List Char
  | '\\' :: '!' :: cs => (false, false, '!' :: cs)
  | '\\' :: '#' :: cs => (false, false, '#' :: cs)
  | '!' :: '/' :: cs => (true, true, cs)
  | '!' :: cs => (true, false, cs)
  | '/' :: cs => (false, true, cs)
  | cs => (false, false, cs)

def dropSlash (cs : List Char) : Bool × List Char :=
  match cs.reverse with
  | '/' :: '\\' :: back => (true, back.reverse)
  | '/' :: back => (true, back.reverse)
  | _ => (false, cs)

/-- The pattern on paths that a line comes to. Without a slash it applies at every depth. One that
ends in two stars applies to what is below a directory and not to the directory. -/
def patternText (anchored : Bool) (cs : List Char) : String :=
  let text := String.ofList cs
  let spread := if anchored || '/' ∈ cs || text = "**" then text else "**/" ++ text
  if spread.endsWith "/**" then spread ++ "/*" else spread

def ofLine (source line : String) : Except PathPattern.Fault (Option IgnoreRule) :=
  let written := trimLine line
  if written = "" || line.toList.head? = some '#' then .ok none
  else
    let (keeps, anchored, marked) := dropMarks written.toList
    let (onlyDirectories, cs) := dropSlash marked
    (PathPattern.ofString (patternText anchored cs)).map fun pattern =>
      some ⟨source, written, pattern, keeps, onlyDirectories⟩

def skipMarks (line : String) : String :=
  String.ofList (line.toList.dropWhile (· = '\ufeff'))

/-- The rules on some lines, the first of which has the given number. Lines with a pattern that
cannot be read are left out. -/
def ofLinesFrom (source : String) (number : Nat) :
    List String → List IgnoreRule × List WalkFault
  | [] => ([], [])
  | line :: lines =>
    let (rules, faults) := ofLinesFrom source (number + 1) lines
    match ofLine source line with
    | .ok rule => (rule.toList ++ rules, faults)
    | .error e => (rules, .badRule source number (trimLine line) e :: faults)

def ofLines (source : String) : List String → List IgnoreRule × List WalkFault
  | [] => ([], [])
  | first :: lines => ofLinesFrom source 1 (skipMarks first :: lines)

/-- Whether a rule applies to an entry, given by its path from the directory of the file on. -/
def applies (r : IgnoreRule) (path : String) (isDirectory : Bool) : Bool :=
  (isDirectory || !r.onlyDirectories) && r.pattern.covers path

def last? (rules : List IgnoreRule) (path : String) (isDirectory : Bool) : Option IgnoreRule :=
  rules.reverse.find? (·.applies path isDirectory)

def boolText (b : Bool) : String := if b then "true" else "false"

def description (r : IgnoreRule) : String :=
  "Glob \x7b from: Some(" ++ Text.quoted r.source ++ "), original: " ++ Text.quoted r.written
    ++ ", actual: " ++ Text.quoted r.pattern.written ++ ", is_whitelist: " ++ boolText r.keeps
    ++ ", is_only_dir: " ++ boolText r.onlyDirectories ++ " \x7d"

def readingLog (rules : List IgnoreRule) : List String :=
  if rules.isEmpty then []
  else
    rules.filterMap (·.pattern.conversion?) ++ [PathPattern.tally (rules.map (·.pattern))]

end IgnoreRule

end ResourceLint
