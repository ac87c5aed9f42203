import ResourceLint.Command.Arguments
import ResourceLint.Conventions
import ResourceLint.Json.Printer
import ResourceLint.Report

/-!
What the commands print: reports in three formats, and the list of rules. Reports for people are
coloured.
-/

namespace ResourceLint.Command

inductive Colour where
  | red
  | yellow
  | green
  deriving DecidableEq, Repr

def Colour.code : Colour → String
  | .red => "\x1b[31m"
  | .yellow => "\x1b[33m"
  | .green => "\x1b[32m"

def Colour.paint (c : Colour) (s : String) : String := c.code ++ s ++ "\x1b[0m"

def severityColour : Severity → Colour
  | .error => .red
  | .warning => .yellow

def summaryColour (r : Report) : Colour :=
  if 0 < r.errorCount then .red else if 0 < r.warningCount then .yellow else .green

def reportText (r : Report) : String :=
  String.join (r.violations.map fun v =>
      v.block ((severityColour v.severity).paint v.severity.name) ++ "\n")
    ++ (summaryColour r).paint ("Found " ++ r.tally) ++ "\n"

def reportJson (r : Report) : String := Json.pretty 0 r.encode ++ "\n"

def reportLines (r : Report) : String :=
  String.join (r.violations.map fun v => v.line ++ "\n")

def OutputFormat.render : OutputFormat → Report → String
  | .text => reportText
  | .json => reportJson
  | .compact => reportLines

def padTo (width : Nat) (s : String) : String :=
  s ++ String.ofList (List.replicate (width - s.length) ' ')

def ruleRow (code severity description : String) : String :=
  padTo 38 code ++ " " ++ padTo 9 severity ++ " " ++ description ++ "\n"

def ruleLine (config : Config) (r : Rule Resource) : String :=
  ruleRow r.code ((config.severity? r.code).getD r.severity).name
    (r.message ++ if config.isEnabled r.code then "" else " (disabled)")

def ruleListing (config : Config) : String :=
  "Available rules:\n\n" ++ ruleRow "Code" "Severity" "Description"
    ++ String.ofList (List.replicate 100 '-') ++ "\n"
    ++ String.join ((Conventions.all config.framework).map (ruleLine config))
    ++ "\nUse --rules to filter specific rules, e.g.:\n"
    ++ "  construct-lint check --schema resources.json --rules resource-attribute,grant-result\n"

def starterConfig : String :=
  "# construct-lint configuration\n\n"
    ++ "# Severity that fails `construct_lint::check()` in cargo test (\"error\" or \"warning\")\n"
    ++ "fail_on = \"error\"\n\n"
    ++ "# Framework types the resource rules check against\n"
    ++ "[core]\n"
    ++ "construct = \"constructs.Construct\"\n"
    ++ "resource = \"@cdk/core.Resource\"\n"
    ++ "resource_interface = \"@cdk/core.IResource\"\n"
    ++ "grant = \"@cdk/aws-iam.Grant\"\n\n"
    ++ "[linter]\n"
    ++ "# Suppressed violations, as \"<code-glob>:<scope-glob>\"\n"
    ++ "exclude = [\n"
    ++ "    # \"resource-attribute:@pkg/foo-bar.Widget.*\",\n"
    ++ "]\n\n"
    ++ "# Rule configurations\n"
    ++ "# Each rule can be enabled/disabled and have its severity overridden\n\n"
    ++ "[rules.resource-interface]\n"
    ++ "enabled = true\n"
    ++ "# severity = \"error\"\n\n"
    ++ "[rules.grant-result]\n"
    ++ "enabled = true\n"
    ++ "# severity = \"warning\"\n"

def initNotice : String :=
  "Created construct-lint.toml\n\n"
    ++ "Next steps:\n"
    ++ "  1. Edit construct-lint.toml to configure rules\n"
    ++ "  2. Run: construct-lint check --schema <resources.json> <assembly>\n"

def versionText : String := "construct-lint 0.4.2\n"

def usageText : String :=
  "Convention linter for construct libraries\n\n"
    ++ "Usage: construct-lint [OPTIONS] <COMMAND>\n\n"
    ++ "Commands:\n"
    ++ "  check       Lint assembly snapshots against a schema catalog\n"
    ++ "  list-rules  List available rules\n"
    ++ "  init        Initialize configuration file\n"
    ++ "  help        Print this message\n\n"
    ++ "Options:\n"
    ++ "  -v, --verbose          Enable verbose output\n"
    ++ "  -c, --config <CONFIG>  Path to configuration file\n"
    ++ "  -h, --help             Print help\n"
    ++ "  -V, --version          Print version\n"

end ResourceLint.Command
