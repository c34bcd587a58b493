import SolidityLint.Tree.NodeType
import SolidityLint.Tree.Visibility
import SolidityLint.Tree.Node
import SolidityLint.Tree.Basic
import SolidityLint.Path.Segment
import SolidityLint.Path.Normal
import SolidityLint.Path.Component
import SolidityLint.Text.Raw
import SolidityLint.Path.Source
import SolidityLint.Ignore
import SolidityLint.Dictionary
import SolidityLint.Number.Digits
import SolidityLint.Number.Binary64
import SolidityLint.Json.Value
import SolidityLint.Json.Number
import SolidityLint.Json.Text
import SolidityLint.Json.Reader
import SolidityLint.Tree.Import
import SolidityLint.Text.Hidden
import SolidityLint.Text.Quoted
import SolidityLint.Toml.DateTime
import SolidityLint.Toml.Value
import SolidityLint.Config
import SolidityLint.Report.Violation
import SolidityLint.Rule.Basic
import SolidityLint.Rule.Registry
import SolidityLint.Rule.Instance
import SolidityLint.Rule.InterfaceNames
import SolidityLint.Rule.LeadingUnderscore
import SolidityLint.Rule.Builtin
import SolidityLint.Report.Basic
import SolidityLint.Json.Writer
import SolidityLint.Report.Json
import SolidityLint.Report.Render
import SolidityLint.Report.Diagnostic
import SolidityLint.FileSystem
import SolidityLint.Lint
import SolidityLint.Toml.Layout
import SolidityLint.Toml.Text
import SolidityLint.Toml.Number
import SolidityLint.Toml.Moment
import SolidityLint.Toml.Key
import SolidityLint.Toml.Table
import SolidityLint.Toml.Reader
import SolidityLint.Config.Reader
import SolidityLint.Config.Source
import SolidityLint.Log
import SolidityLint.Check
import SolidityLint.CommandLine.Arguments
import SolidityLint.CommandLine.Run
import SolidityLint.Main
import SolidityLint.Proofs.Outcome
import SolidityLint.Proofs.Text.Raw
import SolidityLint.Proofs.Tree.Push
import SolidityLint.Proofs.Tree.Links
import SolidityLint.Proofs.Tree.Outline
import SolidityLint.Proofs.Tree.Imported
import SolidityLint.Proofs.Tree.Objects
import SolidityLint.Proofs.Rule.Registration
import SolidityLint.Proofs.Rule.Validation
import SolidityLint.Proofs.Rule.Setup
import SolidityLint.Proofs.Rule.Builtin
import SolidityLint.Proofs.Rule.Dispatch
import SolidityLint.Proofs.Rule.Usable
import SolidityLint.Proofs.Lint.Traversal
import SolidityLint.Proofs.Lint.Walk
import SolidityLint.Proofs.Lint.Independence
import SolidityLint.Proofs.Lint.Ignored
import SolidityLint.Proofs.Lint.History
import SolidityLint.Proofs.Lint.Excerpt
import SolidityLint.Proofs.Lint.Scan
import SolidityLint.Proofs.Json.Token
import SolidityLint.Proofs.Json.RoundTrip
import SolidityLint.Proofs.Path.Segment
import SolidityLint.Proofs.Path.Component
import SolidityLint.Proofs.Path.Order
import SolidityLint.Proofs.Path.Normal
import SolidityLint.Proofs.Path.Covered
import SolidityLint.Proofs.Path.Joined
import SolidityLint.Proofs.Path.Source
import SolidityLint.Proofs.Path.Encoded
import SolidityLint.Proofs.Report.Order
import SolidityLint.Proofs.Report.Sort
import SolidityLint.Proofs.Report.Merge
import SolidityLint.Proofs.Report.Count
import SolidityLint.Proofs.Report.ByteRange
import SolidityLint.Proofs.Report.RoundTrip
import SolidityLint.Proofs.Report.Cache
import SolidityLint.Proofs.Report.Compact
import SolidityLint.Proofs.Report.Printed
import SolidityLint.Proofs.Check.ClosedForm
import SolidityLint.Proofs.Check.Permutation
import SolidityLint.Proofs.Lint.Inputs
import SolidityLint.Proofs.Check.Status
