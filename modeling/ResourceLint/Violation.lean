import ResourceLint.Severity

/-!
A violation names the rule that found it, the resource that was checked and the place in it, and
can be shown as a block of lines or on one line.
-/

namespace ResourceLint

open Data

structure Violation where
  code : String
  severity : Severity
  /-- The class under check. -/
  resource : String
  /-- The class, interface or member at fault. -/
  scope : String
  message : String
  extra : Option String
  deriving DecidableEq, Repr

namespace Violation

def withExtra (v : Violation) (extra : String) : Violation := { v with extra := some extra }

def detail (v : Violation) : String :=
  match v.extra with
  | some extra => v.message ++ " " ++ extra
  | none => v.message

/-- The lines of a report on one violation, with the severity written as `mark`. The resource is
named only where the scope is another type or a member. -/
def block (mark : String) (v : Violation) : String :=
  "[" ++ v.code ++ "] " ++ v.scope ++ "\n  " ++ mark ++ ": " ++ v.detail ++ "\n"
    ++ (if v.scope = v.resource then "" else "  = resource: " ++ v.resource ++ "\n")

def format (v : Violation) : String := v.block v.severity.name

def line (v : Violation) : String :=
  v.severity.name ++ ": " ++ v.scope ++ " [" ++ v.code ++ "] " ++ v.detail

def encode (v : Violation) : Value :=
  .record <|
    [("code", .text v.code), ("severity", v.severity.encode), ("resource", .text v.resource),
      ("scope", .text v.scope), ("message", .text v.message)]
    ++ (v.extra.map fun s => ("extra", Value.text s)).toList

def decode (v : Value) : Option Violation := do
  let fs ← Format.json.fields? ["code", "severity", "resource", "scope", "message", "extra"] v
  return {
    code := ← fs.required "code" Value.text?
    severity := ← fs.required "severity" (Severity.decode Format.json)
    resource := ← fs.required "resource" Value.text?
    scope := ← fs.required "scope" Value.text?
    message := ← fs.required "message" Value.text?
    extra := ← fs.optional "extra" Value.text? }

end Violation

end ResourceLint
