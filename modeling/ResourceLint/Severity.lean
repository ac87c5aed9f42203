import ResourceLint.Data.Record

/-!
The two severities of a finding, ordered with errors above warnings.
-/

namespace ResourceLint

open Data

inductive Severity where
  | warning
  | error
  deriving DecidableEq, Repr

namespace Severity

def name : Severity → String
  | .warning => "warning"
  | .error => "error"

def ofName? : String → Option Severity
  | "warning" => some .warning
  | "error" => some .error
  | _ => none

def atLeast (s threshold : Severity) : Bool :=
  match s, threshold with
  | .warning, .error => false
  | _, _ => true

def encode (s : Severity) : Value := .text s.name

def decode (f : Format) (v : Value) : Option Severity :=
  (f.mark? v).bind ofName?

end Severity

end ResourceLint
