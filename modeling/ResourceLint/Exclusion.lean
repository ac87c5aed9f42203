import ResourceLint.Glob.Match
import ResourceLint.Text.Cut

/-!
Exclusions suppress violations. One is written as two globs with a colon between them, for the
rule code and for the scope; without a colon it is about every scope.
-/

namespace ResourceLint

structure Exclusion where
  code : Glob.Pattern
  scope : Glob.Pattern
  deriving DecidableEq, Repr

namespace Exclusion

def halves (s : String) : String × String :=
  (Text.cutFirst ':' s).getD (s, "*")

def ofString (s : String) : Except Glob.PatternError Exclusion := do
  let code ← Glob.Pattern.ofString (halves s).1
  let scope ← Glob.Pattern.ofString (halves s).2
  return ⟨code, scope⟩

def covers (e : Exclusion) (code scope : String) : Bool :=
  e.code.matches code && e.scope.matches scope

end Exclusion

end ResourceLint
