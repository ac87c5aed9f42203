/-!
Named entries in order. An entry that is entered again keeps its place.
-/

namespace ResourceLint.Data

variable {α : Type}

/-- Enters a value under a name: in the place of the first of that name, or after all others. -/
def setEntry (name : String) (a : α) : List (String × α) → List (String × α)
  | [] => [(name, a)]
  | e :: es => if e.1 = name then (name, a) :: es else e :: setEntry name a es

end ResourceLint.Data
