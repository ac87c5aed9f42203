import ResourceLint.Rule.Assessment
import ResourceLint.Text.Quoted

/-!
Rules over any kind of subject, and sets of rules with distinct codes.
-/

namespace ResourceLint

class Subject (σ : Type) where
  fqn : σ → String

/-- A rule records its checks on a subject, or breaks off for a reason of its own. -/
structure Rule (σ : Type) where
  code : String
  message : String
  severity : Severity := .error
  body : σ → Assessment → Except String Assessment

namespace Rule

variable {σ : Type}

def start [Subject σ] (r : Rule σ) (s : σ) : Assessment where
  code := r.code
  severity := r.severity
  message := r.message
  resource := Subject.fqn s

def evaluate [Subject σ] (r : Rule σ) (s : σ) : Except String (List Violation) :=
  (r.body s (r.start s)).map Assessment.violations

/-- A rule whose checks depend on the subject alone and that never breaks off. -/
def ofChecks (code message : String) (severity : Severity) (checks : σ → List Check) : Rule σ where
  code := code
  message := message
  severity := severity
  body s a := .ok (a.recordAll (checks s)).2

def summary (r : Rule σ) : String :=
  "Rule \x7b code: " ++ Text.quoted r.code ++ ", message: " ++ Text.quoted r.message
    ++ ", severity: " ++ (match r.severity with
      | .error => "Error"
      | .warning => "Warning")
    ++ ", .. \x7d"

end Rule

/-- Rules with distinct codes, in the order they were added. -/
structure RuleSet (σ : Type) where
  rules : List (Rule σ) := []

namespace RuleSet

variable {σ : Type}

def codes (rs : RuleSet σ) : List String := rs.rules.map (·.code)

def get? (rs : RuleSet σ) (code : String) : Option (Rule σ) := rs.rules.find? (·.code = code)

/-- Adds a rule, unless its code is taken; then the code is returned. -/
def add (rs : RuleSet σ) (r : Rule σ) : Except String (RuleSet σ) :=
  if r.code ∈ rs.codes then .error r.code else .ok ⟨rs.rules ++ [r]⟩

def addAll (rs : RuleSet σ) (rules : List (Rule σ)) : Except String (RuleSet σ) :=
  rules.foldlM add rs

/-- The listed codes that no rule has, and the set without the rules that are not listed. -/
def select (rs : RuleSet σ) (listed : List String) : List String × RuleSet σ :=
  (listed.filter (· ∉ rs.codes), ⟨rs.rules.filter (·.code ∈ listed)⟩)

def summary (rs : RuleSet σ) : String :=
  "[" ++ String.intercalate ", " (rs.rules.map Rule.summary) ++ "]"

end RuleSet

end ResourceLint
