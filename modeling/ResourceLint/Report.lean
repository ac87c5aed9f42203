import ResourceLint.Violation

/-!
The outcome of a run: the violations in order and the number of resources looked at.
-/

namespace ResourceLint

open Data

structure Report where
  violations : List Violation
  resourcesChecked : Nat
  deriving DecidableEq, Repr

namespace Report

def empty : Report := ⟨[], 0⟩

def push (r : Report) (v : Violation) : Report :=
  { r with violations := r.violations ++ [v] }

def append (r s : Report) : Report :=
  ⟨r.violations ++ s.violations, r.resourcesChecked + s.resourcesChecked⟩

def ofSeverity (r : Report) (s : Severity) : List Violation :=
  r.violations.filter (·.severity = s)

def ofCode (r : Report) (code : String) : List Violation :=
  r.violations.filter (·.code = code)

def reaching (r : Report) (threshold : Severity) : List Violation :=
  r.violations.filter (·.severity.atLeast threshold)

def reaches (r : Report) (threshold : Severity) : Bool :=
  r.violations.any (·.severity.atLeast threshold)

def hasErrors (r : Report) : Bool := r.reaches .error

def errorCount (r : Report) : Nat := (r.ofSeverity .error).length

def warningCount (r : Report) : Nat := (r.ofSeverity .warning).length

def tally (r : Report) : String :=
  Nat.repr r.errorCount ++ " error(s), " ++ Nat.repr r.warningCount ++ " warning(s) in "
    ++ Nat.repr r.resourcesChecked ++ " resource(s)"

/-- The text with which a failing test reports the violations that reach its threshold. The
closing tally counts all of them. -/
def testReport (r : Report) (threshold : Severity) : String :=
  let shown := r.reaching threshold
  "\n=== construct-lint: " ++ Nat.repr shown.length ++ " violation(s) ===\n\n"
    ++ String.join (shown.map fun v => v.format ++ "\n") ++ "Total: " ++ r.tally ++ "\n"

def encode (r : Report) : Value :=
  .record [("violations", .list (r.violations.map Violation.encode)),
    ("resources_checked", .natural r.resourcesChecked)]

def decode (v : Value) : Option Report := do
  let fs ← Format.json.fields? ["violations", "resources_checked"] v
  return {
    violations := ← fs.required "violations" (Value.listOf? Violation.decode)
    resourcesChecked := ← fs.required "resources_checked" Value.count? }

end Report

end ResourceLint
