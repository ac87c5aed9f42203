import ResourceLint.Config
import ResourceLint.Log
import ResourceLint.Report
import ResourceLint.Rule.Basic

/-!
The engine: rules, exclusions and settings, applied to subjects in order. For each subject the
enabled rules run in the order they were added, and the first rule that breaks off ends the run.
-/

namespace ResourceLint

inductive LinterError where
  | duplicateRule (code : String)
  | ruleBroke (code resource reason : String)
  | badConfig (error : ConfigError)
  deriving DecidableEq, Repr

def LinterError.message : LinterError → String
  | .duplicateRule code => "Rule `" ++ code ++ "` is already registered"
  | .ruleBroke code resource reason =>
    "Rule `" ++ code ++ "` failed on " ++ resource ++ ": " ++ reason
  | .badConfig error => "Configuration error: " ++ error.message

structure Linter (σ : Type) where
  rules : RuleSet σ
  config : Config
  exclusions : List Exclusion

structure LinterPlan (σ : Type) where
  rules : List (Rule σ) := []
  /-- Written exclusions beyond those of the configuration. -/
  exclude : List String := []
  config : Config := {}

namespace LinterPlan

variable {σ : Type}

def addRule (p : LinterPlan σ) (r : Rule σ) : LinterPlan σ := { p with rules := p.rules ++ [r] }

def addRuleSet (p : LinterPlan σ) (rs : RuleSet σ) : LinterPlan σ :=
  { p with rules := p.rules ++ rs.rules }

/-- Makes the linter. A repeated rule code is found before any exclusion is read. -/
def build (p : LinterPlan σ) : Except LinterError (Linter σ) := do
  let rules ← (RuleSet.addAll {} p.rules).mapError .duplicateRule
  let configured ← p.config.exclusions.mapError .badConfig
  let further ← (Exclusion.compile p.exclude).mapError .badConfig
  return ⟨rules, p.config, configured ++ further⟩

end LinterPlan

namespace Linter

variable {σ : Type}

def enabledRules (l : Linter σ) : List (Rule σ) :=
  l.rules.rules.filter (l.config.isEnabled ·.code)

def disabledRules (l : Linter σ) : List (Rule σ) :=
  l.rules.rules.filter (!l.config.isEnabled ·.code)

def excludes (l : Linter σ) (v : Violation) : Bool :=
  l.exclusions.any (·.covers v.code v.scope)

def regrade (l : Linter σ) (code : String) (v : Violation) : Violation :=
  { v with severity := (l.config.severity? code).getD v.severity }

def kept (l : Linter σ) (code : String) (vs : List Violation) : List Violation :=
  (vs.filter (!l.excludes ·)).map (l.regrade code)

def exclusionLog (l : Linter σ) (vs : List Violation) : List LogLine :=
  (vs.filter l.excludes).map fun v => ⟨.debug, "Excluded [" ++ v.code ++ "] " ++ v.scope⟩

variable [Subject σ]

def runRule (l : Linter σ) (s : σ) (r : Rule σ) : Run LinterError (List Violation) := do
  match r.evaluate s with
  | .error reason => throw (.ruleBroke r.code (Subject.fqn s) reason)
  | .ok vs =>
    Traced.lines (l.exclusionLog vs)
    return l.kept r.code vs

def runRules (l : Linter σ) (s : σ) : List (Rule σ) → Run LinterError (List Violation)
  | [] => return []
  | r :: rs => do
    let first ← l.runRule s r
    let others ← l.runRules s rs
    return first ++ others

def runSubjects (l : Linter σ) : List σ → Run LinterError (List Violation)
  | [] => return []
  | s :: ss => do
    Traced.debug ("Linting: " ++ Subject.fqn s)
    let first ← l.runRules s l.enabledRules
    let others ← l.runSubjects ss
    return first ++ others

/-- The report on all subjects, or the error of the first rule that breaks off. -/
def run (l : Linter σ) (subjects : List σ) : Run LinterError Report := do
  Traced.lines (l.disabledRules.map fun r => ⟨.debug, "Skipping disabled rule: " ++ r.code⟩)
  Traced.info ("Evaluating " ++ Nat.repr l.enabledRules.length ++ " rule(s) against "
    ++ Nat.repr subjects.length ++ " resource(s)")
  let violations ← l.runSubjects subjects
  Traced.info ("Lint complete: " ++ Nat.repr violations.length ++ " violation(s) in "
    ++ Nat.repr subjects.length ++ " resource(s)")
  return ⟨violations, subjects.length⟩

/-- The rules that a run puts to a subject: the enabled ones, up to the first that breaks off. -/
def attempted (s : σ) : List (Rule σ) → List (Rule σ)
  | [] => []
  | r :: rs =>
    match r.evaluate s with
    | .error _ => [r]
    | .ok _ => r :: attempted s rs

def breaksOn (l : Linter σ) (s : σ) : Bool :=
  l.enabledRules.any fun r => (r.evaluate s).toOption.isNone

/-- For each subject, the rules that a run puts to it. None are put to a subject that comes after
one on which the run ended. -/
def attempts (l : Linter σ) : List σ → List (List (Rule σ))
  | [] => []
  | s :: ss =>
    attempted s l.enabledRules
      :: if l.breaksOn s then ss.map fun _ => [] else l.attempts ss

end Linter

end ResourceLint
