import ResourceLint.Conventions
import ResourceLint.Linter

/-!
A whole run: find the resources of an assembly, choose among the conventions, and hold the
resources to them.
-/

namespace ResourceLint

inductive LintError where
  | schemaNotFound (error : SchemaNotFound)
  | linter (error : LinterError)
  deriving DecidableEq, Repr

def LintError.message : LintError → String
  | .schemaNotFound error => error.message
  | .linter error => error.message

/-- Keeps the selected rules, if a selection is given, and warns of codes that no rule has. -/
def selectRules (rules : RuleSet Resource) : Option (List String) → Traced (RuleSet Resource)
  | none => return rules
  | some listed => do
    let (unknown, chosen) := rules.select listed
    Traced.lines (unknown.map fun code => ⟨.warn, "Unknown rule code: " ++ code⟩)
    return chosen

def lint (t : TypeTable) (cat : Catalog) (config : Config) (selected : Option (List String)) :
    Run LintError Report := do
  let resources ← Run.mapError .schemaNotFound (t.resources cat config.framework)
  Traced.info ("Found " ++ Nat.repr resources.length ++ " resource(s)")
  let conventions ← Run.ofExcept
    ((RuleSet.addAll {} (Conventions.all config.framework)).mapError (.linter ∘ .duplicateRule))
  let rules ← selectRules conventions selected
  let plan : LinterPlan Resource := { rules := rules.rules, config := config }
  let linter ← Run.ofExcept (plan.build.mapError .linter)
  Run.mapError .linter (linter.run resources)

end ResourceLint
