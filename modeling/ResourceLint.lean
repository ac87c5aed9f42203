import ResourceLint.Assembly
import ResourceLint.Catalog
import ResourceLint.Command.Arguments
import ResourceLint.Command.Footprint
import ResourceLint.Command.Output
import ResourceLint.Command.Run
import ResourceLint.Command.Settings
import ResourceLint.Command.UserIgnore
import ResourceLint.Config
import ResourceLint.Conventions
import ResourceLint.Data.Dict
import ResourceLint.Data.Entries
import ResourceLint.Data.Record
import ResourceLint.Data.Value
import ResourceLint.Declaration.Docs
import ResourceLint.Declaration.Member
import ResourceLint.Declaration.Type
import ResourceLint.Declaration.TypeRef
import ResourceLint.Exclusion
import ResourceLint.Files.Content
import ResourceLint.Files.Error
import ResourceLint.Files.IgnoreRule
import ResourceLint.Files.IgnoreScope
import ResourceLint.Files.Path
import ResourceLint.Files.PathPattern
import ResourceLint.Files.PatternIndex
import ResourceLint.Files.Tree
import ResourceLint.Files.Walk
import ResourceLint.Glob.Match
import ResourceLint.Glob.Pattern
import ResourceLint.Json.Printer
import ResourceLint.Json.Reader
import ResourceLint.Json.Token
import ResourceLint.LintRun
import ResourceLint.Linter
import ResourceLint.Loading
import ResourceLint.Log
import ResourceLint.Main
import ResourceLint.Naming
import ResourceLint.ProjectCheck
import ResourceLint.Report
import ResourceLint.Resource.Attribute
import ResourceLint.Resource.Basic
import ResourceLint.Resource.Construct
import ResourceLint.Resource.Schema
import ResourceLint.Rule.Assessment
import ResourceLint.Rule.Basic
import ResourceLint.Severity
import ResourceLint.Text.Ascii
import ResourceLint.Text.Blank
import ResourceLint.Text.Cut
import ResourceLint.Text.Quoted
import ResourceLint.Text.Scan
import ResourceLint.Text.Terminal
import ResourceLint.Text.Unseen
import ResourceLint.Toml.Key
import ResourceLint.Toml.Layout
import ResourceLint.Toml.Moment
import ResourceLint.Toml.Number
import ResourceLint.Toml.Quoted
import ResourceLint.Toml.Reader
import ResourceLint.Toml.Table
import ResourceLint.TypeTable.Ancestry
import ResourceLint.TypeTable.Basic
import ResourceLint.TypeTable.Extension
import ResourceLint.TypeTable.Members
import ResourceLint.TypeTable.Walk
import ResourceLint.Violation
import ResourceLint.Proofs.Engine
import ResourceLint.Proofs.Composition
import ResourceLint.Proofs.SignatureFaults
import ResourceLint.Proofs.RuleHistory
import ResourceLint.Proofs.Ancestry
import ResourceLint.Proofs.Overlay
import ResourceLint.Proofs.Unfolding
import ResourceLint.Proofs.Redeclaration
import ResourceLint.Proofs.TagInheritance
import ResourceLint.Proofs.SchemaSearch
import ResourceLint.Proofs.LintOutcome
import ResourceLint.Proofs.Cutting
import ResourceLint.Proofs.Findings
import ResourceLint.Proofs.FailureModes
import ResourceLint.Proofs.Filtering
import ResourceLint.Proofs.Suppression
import ResourceLint.Proofs.Registration
import ResourceLint.Proofs.Flattening
import ResourceLint.Proofs.Evaluation
import ResourceLint.Proofs.Agreement
import ResourceLint.Proofs.Unreferenced
import ResourceLint.Proofs.Precedence
import ResourceLint.Proofs.CheckCommand
import ResourceLint.Proofs.Verdict
import ResourceLint.Proofs.RoundTrip
import ResourceLint.Proofs.Presentation
import ResourceLint.Proofs.PropertyFrame
import ResourceLint.Proofs.Remedy
import ResourceLint.Proofs.Inheritance
import ResourceLint.Proofs.Spelling
import ResourceLint.Proofs.JsonText
import ResourceLint.Proofs.Letters
import ResourceLint.Proofs.ShapedName
import ResourceLint.Proofs.CamelCase
import ResourceLint.Proofs.ExpectedName
import ResourceLint.Proofs.StandardOutput
import ResourceLint.Proofs.Turns
import ResourceLint.Proofs.LinkWalks
import ResourceLint.Proofs.Termination
