import ResourceLint.Command.Arguments
import ResourceLint.Files.Tree
import ResourceLint.Text.Scan

/-!
The user's own ignore file. A line of the user's settings for git may name it; otherwise it has a
place of its own beside them.
-/

namespace ResourceLint.Command

open Text

def Environment.nonempty? (env : Environment) (name : String) : Option String :=
  (env.lookup name).filter (· != "")

def homeDirectory? (env : Environment) : Option String := env.nonempty? "HOME"

def settingsVariable : String := "XDG_CONFIG_HOME"

def settingsDirectory? (env : Environment) : Option String :=
  env.nonempty? settingsVariable <|> (homeDirectory? env).map (Path.join · ".config")

def isSpacing (c : Char) : Bool := c ∈ ['\t', '\n', '\x0b', '\x0c', '\r', ' ']

def skipSpacing (cs : List Char) : List Char := cs.dropWhile isSpacing

def endsLine : List Char → Bool
  | [] => true
  | c :: cs => c = '\n' || (isSpacing c && endsLine cs)

/-- Whether blanks, with a quote among them or not, lead to the end of a line. -/
def endsValue (cs : List Char) : Bool :=
  endsLine cs || (dropChar '\x22' (skipSpacing cs)).any endsLine

def shortestWord? (taken : List Char) : List Char → Option (List Char)
  | [] => none
  | c :: cs =>
    if isSpacing c then none
    else if endsValue cs then some (taken ++ [c])
    else shortestWord? (taken ++ [c]) cs

/-- The value that follows an equals sign. Quotes around it do not belong to it. -/
def settingValue? (cs : List Char) : Option (List Char) :=
  let start := skipSpacing cs
  ((dropChar '\x22' start).bind fun rest => shortestWord? [] (skipSpacing rest))
    <|> shortestWord? [] start

/-- The value of a setting, if the text starts with the setting. Case does not matter in its
name. -/
def settingAt? (name : List Char) (cs : List Char) : Option (List Char) :=
  let start := skipSpacing cs
  if (start.take name.length).map toLower = name then
    (dropChar '=' (skipSpacing (start.drop name.length))).bind settingValue?
  else none

def settingFrom? (name : List Char) (atStart : Bool) : List Char → Option (List Char)
  | [] => none
  | c :: cs =>
    (if atStart then settingAt? name (c :: cs) else none) <|> settingFrom? name (c = '\n') cs

def setting? (name text : String) : Option String :=
  (settingFrom? name.toList true text.toList).map String.ofList

/-- The text of a file as far as it is text, if there is such a file. -/
def settingsText? (fs : Files) (path : String) : Option String :=
  match fs.find? path with
  | some (.file content) => some content.readable
  | _ => none

def expandTilde (env : Environment) (path : String) : String :=
  match homeDirectory? env with
  | none => path
  | some home => String.ofList (path.toList.flatMap fun c => if c = '~' then home.toList else [c])

def gitSettingsFiles (env : Environment) : List String :=
  ((homeDirectory? env).map (Path.join · ".gitconfig")).toList
    ++ ((settingsDirectory? env).map (Path.join · "git/config")).toList

def userIgnoreFile? (fs : Files) (env : Environment) : Option String :=
  ((gitSettingsFiles env).findSome? fun path =>
      ((settingsText? fs path).bind (setting? "excludesfile")).map (expandTilde env))
    <|> (settingsDirectory? env).map (Path.join · "git/ignore")

end ResourceLint.Command
