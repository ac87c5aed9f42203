import ResourceLint.Data.Dict
import ResourceLint.Exclusion
import ResourceLint.Files.Error
import ResourceLint.Severity

/-!
Configuration of a run: the framework types that the conventions speak of, exclusions, and a
setting for each rule. What is left out has a default.
-/

namespace ResourceLint

open Data

structure Framework where
  construct : String := "constructs.Construct"
  resource : String := "@cdk/core.Resource"
  resourceInterface : String := "@cdk/core.IResource"
  grant : String := "@cdk/aws-iam.Grant"
  deriving DecidableEq, Repr

structure RuleSetting where
  enabled : Option Bool := none
  severity : Option Severity := none
  deriving DecidableEq, Repr

structure Config where
  /-- The severity that fails a test, as written. -/
  failOn : Option String := none
  framework : Framework := {}
  /-- Written exclusions. -/
  exclude : List String := []
  rules : Dict RuleSetting := .empty

inductive ConfigError where
  | unreadable (path : String) (error : FileError)
  | malformed
  | badExclusion (written : String) (error : Glob.PatternError)
  | unknownSeverity (written : String)
  deriving DecidableEq, Repr

def ConfigError.message : ConfigError → String
  | .unreadable path error => "Failed to read config file " ++ path ++ ": " ++ error.message
  | .malformed => "Failed to parse config"
  | .badExclusion written error =>
    "Invalid exclusion pattern `" ++ written ++ "`: " ++ error.message
  | .unknownSeverity written =>
    "Unknown severity `" ++ written ++ "`, expected: error, warning"

def Severity.named (written : String) : Except ConfigError Severity :=
  match Severity.ofName? written with
  | some s => .ok s
  | none => .error (.unknownSeverity written)

/-- The exclusions of a list, or the error of the first that is not one. -/
def Exclusion.compile (written : List String) : Except ConfigError (List Exclusion) :=
  written.mapM fun w => (Exclusion.ofString w).mapError (.badExclusion w)

namespace Framework

def encode (f : Framework) : Value :=
  .record [("construct", .text f.construct), ("resource", .text f.resource),
    ("resource_interface", .text f.resourceInterface), ("grant", .text f.grant)]

def decode (fmt : Format) (v : Value) : Option Framework := do
  let fs ← fmt.fields? ["construct", "resource", "resource_interface", "grant"] v
  let d : Framework := {}
  return {
    construct := ← fs.defaulted "construct" d.construct Value.text?
    resource := ← fs.defaulted "resource" d.resource Value.text?
    resourceInterface := ← fs.defaulted "resource_interface" d.resourceInterface Value.text?
    grant := ← fs.defaulted "grant" d.grant Value.text? }

end Framework

namespace RuleSetting

def encode (s : RuleSetting) : Value :=
  .record [("enabled", (s.enabled.map Value.bool).getD .null),
    ("severity", (s.severity.map Severity.encode).getD .null)]

def decode (fmt : Format) (v : Value) : Option RuleSetting := do
  let fs ← fmt.fields? ["enabled", "severity"] v
  return {
    enabled := ← fs.optional "enabled" Value.bool?
    severity := ← fs.optional "severity" (Severity.decode fmt) }

end RuleSetting

namespace Config

def isEnabled (c : Config) (code : String) : Bool :=
  ((c.rules.get? code).bind RuleSetting.enabled).getD true

def severity? (c : Config) (code : String) : Option Severity :=
  (c.rules.get? code).bind RuleSetting.severity

def threshold (c : Config) : Except ConfigError Severity :=
  match c.failOn with
  | none => .ok .error
  | some written => Severity.named written

def exclusions (c : Config) : Except ConfigError (List Exclusion) :=
  Exclusion.compile c.exclude

def encode (c : Config) : Value :=
  .record [("fail_on", (c.failOn.map Value.text).getD .null), ("core", c.framework.encode),
    ("linter", .record [("exclude", .list (c.exclude.map Value.text))]),
    ("rules", .record (c.rules.entries.map fun e => (e.1, e.2.encode)))]

def decodeExclude (fmt : Format) (v : Value) : Option (List String) := do
  let fs ← fmt.fields? ["exclude"] v
  fs.defaulted "exclude" [] (Value.listOf? Value.text?)

def decode (fmt : Format) (v : Value) : Option Config := do
  let fs ← fmt.fields? ["fail_on", "core", "linter", "rules"] v
  return {
    failOn := ← fs.optional "fail_on" Value.text?
    framework := ← fs.defaulted "core" {} (Framework.decode fmt)
    exclude := ← fs.defaulted "linter" [] (decodeExclude fmt)
    rules := Dict.ofList
      (← fs.defaulted "rules" [] (Value.entriesOf? (RuleSetting.decode fmt))) }

end Config

end ResourceLint
