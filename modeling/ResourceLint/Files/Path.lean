import ResourceLint.Text.Cut

/-!
Paths as text. A path is kept as it was written or joined; only its meaning is read off its steps,
the pieces between the slashes. An empty step and a single dot lead nowhere.
-/

namespace ResourceLint.Path

def isAbsolute (path : String) : Bool := path.toList.head? = some '/'

/-- A path within a directory. An absolute path stands for itself. -/
def join (base path : String) : String :=
  if isAbsolute path || base = "" then path
  else if base.toList.getLast? = some '/' then base ++ path
  else base ++ "/" ++ path

def steps (path : String) : List String := Text.split '/' path

def isIdle (step : String) : Bool := step = "" || step = "."

/-- The text of the path that starts with `first` and goes on with steps, the last one first. What
leads nowhere at its end is left out. -/
def textOf (first : String) (stepsBack : List String) : String :=
  match stepsBack.dropWhile isIdle with
  | [] => if first = "" then "/" else first
  | taken => String.intercalate "/" (first :: taken.reverse)

/-- The directories above the path that starts with `first` and goes on with steps, the last one
first. Above a relative path's first step is the empty path. -/
def above (first : String) : List String → List String
  | [] => if first = "" then [] else [""]
  | step :: back => if isIdle step then above first back else textOf first back :: above first back

def parents (path : String) : List String :=
  match steps path with
  | [] => []
  | first :: rest => above first rest.reverse

def parent? (path : String) : Option String := (parents path).head?

/-- Whether steps come before others or are the same: the first difference decides. -/
def before : List String → List String → Bool
  | [], _ => true
  | _ :: _, [] => false
  | a :: as, b :: bs => if a = b then before as bs else a < b

end ResourceLint.Path
