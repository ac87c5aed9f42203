import ResourceLint.TypeTable.Members
import ResourceLint.Violation

/-!
One rule looking at one subject. Every check that does not hold is recorded as a violation, and the
rule goes on with its next check.
-/

namespace ResourceLint

structure Check where
  holds : Bool
  scope : String
  extra : Option String := none
  deriving DecidableEq, Repr

structure Assessment where
  code : String
  severity : Severity
  message : String
  resource : String
  violations : List Violation := []
  deriving DecidableEq, Repr

namespace Assessment

def violation (a : Assessment) (c : Check) : Violation :=
  ⟨a.code, a.severity, a.resource, c.scope, a.message, c.extra⟩

def record (a : Assessment) (c : Check) : Bool × Assessment :=
  (c.holds,
    if c.holds then a else { a with violations := a.violations ++ [a.violation c] })

def recordAll (a : Assessment) : List Check → Bool × Assessment
  | [] => (true, a)
  | c :: cs =>
    let first := a.record c
    let others := first.2.recordAll cs
    (first.1 && others.1, others.2)

end Assessment

/-- What is expected of a parameter; what is left out is not checked. -/
structure ExpectedParameter where
  name : Option String := none
  type : Option TypeRef := none
  optional : Option Bool := none

structure ExpectedSignature where
  returns : Option TypeRef := none
  /-- The parameters, as many as there must be. -/
  parameters : Option (List ExpectedParameter) := none

/-- Whether a type is the expected one. A method that returns nothing is shown as `void`. -/
def typeCheck (scope : String) (actual : Option TypeRef) (expected : TypeRef) : Check :=
  ⟨actual = some expected, scope,
    some ("(expected=\"" ++ expected.text ++ "\",actual=\""
      ++ (actual.map TypeRef.text).getD "void" ++ "\")")⟩

namespace ExpectedParameter

def checks (e : ExpectedParameter) (scope : String) (p : ParameterDecl) : List Check :=
  (e.name.map fun n =>
      (⟨p.name = n, scope, some ("(expected name \"" ++ n ++ "\", got \"" ++ p.name ++ "\")")⟩
        : Check)).toList
  ++ (e.type.map (typeCheck scope (some p.type))).toList
  ++ (e.optional.map fun o =>
      (⟨p.optional = o, scope,
        some ("(expected optional=" ++ toString o ++ ", got " ++ toString p.optional ++ ")")⟩
        : Check)).toList

def checksFrom (scope : String) (index : Nat) :
    List ExpectedParameter → List ParameterDecl → List Check
  | e :: es, p :: ps =>
    e.checks (scope ++ ".params[" ++ Nat.repr index ++ "]") p
      ++ checksFrom scope (index + 1) es ps
  | _, _ => []

end ExpectedParameter

namespace ExpectedSignature

/-- The check on the number of parameters, and those on each of them if it holds. -/
def parameterChecks (scope : String) (expected : List ExpectedParameter)
    (actual : List ParameterDecl) : List Check :=
  ⟨expected.length = actual.length, scope,
      some ("(expected " ++ Nat.repr expected.length ++ " parameter(s), got "
        ++ Nat.repr actual.length ++ ")")⟩
    :: if expected.length = actual.length then
        ExpectedParameter.checksFrom scope 0 expected actual
      else []

def checks (e : ExpectedSignature) (m : Member MethodDecl) : List Check :=
  (e.returns.map (typeCheck m.methodFqn m.decl.returns)).toList
  ++ match e.parameters with
    | none => []
    | some ps => parameterChecks m.methodFqn ps m.decl.parameters

end ExpectedSignature

def Assessment.recordSignature (a : Assessment) (m : Member MethodDecl) (e : ExpectedSignature) :
    Bool × Assessment :=
  a.recordAll (e.checks m)

end ResourceLint
