import Longhand.Command.Execute
import Longhand.Command.Help
import Longhand.Command.Options
import Longhand.Config.Fault
import Longhand.Config.Modules
import Longhand.Config.Table
import Longhand.Config.Version
import Longhand.Diff.Colour
import Longhand.Diff.Compact
import Longhand.Diff.Lines
import Longhand.Diff.Region
import Longhand.Diff.Report
import Longhand.Diff.Script
import Longhand.Diff.Unified
import Longhand.Edit.Message
import Longhand.Edit.Patch
import Longhand.Edit.Plan
import Longhand.Files.Collect
import Longhand.Files.Expand
import Longhand.Files.Path
import Longhand.Files.Pattern
import Longhand.Files.Tree
import Longhand.Flag.Json
import Longhand.Flag.Name
import Longhand.Flag.Table
import Longhand.Flag.Yaml.Document
import Longhand.Flag.Yaml.Scalar
import Longhand.Flag.Yaml.Scan
import Longhand.Flag.Yaml.Text
import Longhand.Main
import Longhand.Order
import Longhand.Proofs.Account
import Longhand.Proofs.Added
import Longhand.Proofs.Agree
import Longhand.Proofs.Applied
import Longhand.Proofs.ArmTrees
import Longhand.Proofs.Arms
import Longhand.Proofs.Arranged
import Longhand.Proofs.Arrived
import Longhand.Proofs.Changed
import Longhand.Proofs.Clash
import Longhand.Proofs.Collected
import Longhand.Proofs.Compacted
import Longhand.Proofs.Cursor
import Longhand.Proofs.Draft
import Longhand.Proofs.Fallback
import Longhand.Proofs.Fatal
import Longhand.Proofs.Files
import Longhand.Proofs.Form.Basic
import Longhand.Proofs.Form.Expression
import Longhand.Proofs.Form.Statement
import Longhand.Proofs.Grammar.Basic
import Longhand.Proofs.Grammar.CasePattern
import Longhand.Proofs.Grammar.Display
import Longhand.Proofs.Grammar.Expression
import Longhand.Proofs.Grammar.Operand
import Longhand.Proofs.Grammar.Parameter
import Longhand.Proofs.Grammar.SimpleStatement
import Longhand.Proofs.Grammar.Statement
import Longhand.Proofs.Grammar.StringLiteral
import Longhand.Proofs.Grammar.StringPiece
import Longhand.Proofs.Justified
import Longhand.Proofs.Keyword
import Longhand.Proofs.Layout
import Longhand.Proofs.Leads
import Longhand.Proofs.Lexeme
import Longhand.Proofs.Line
import Longhand.Proofs.Located
import Longhand.Proofs.Lookup
import Longhand.Proofs.Meeting
import Longhand.Proofs.Modes
import Longhand.Proofs.Moved
import Longhand.Proofs.Nesting
import Longhand.Proofs.Node
import Longhand.Proofs.Occurrence
import Longhand.Proofs.Parallel
import Longhand.Proofs.Parse
import Longhand.Proofs.Patch
import Longhand.Proofs.Patchable
import Longhand.Proofs.Plan
import Longhand.Proofs.Rebound
import Longhand.Proofs.Refined
import Longhand.Proofs.Relabel
import Longhand.Proofs.Replaced
import Longhand.Proofs.Reread
import Longhand.Proofs.Rewritten
import Longhand.Proofs.Route
import Longhand.Proofs.ScopeAt
import Longhand.Proofs.Search
import Longhand.Proofs.Settled
import Longhand.Proofs.Shift
import Longhand.Proofs.Sibling
import Longhand.Proofs.Stray
import Longhand.Proofs.Textual
import Longhand.Proofs.Tied
import Longhand.Proofs.Tiles
import Longhand.Proofs.Token
import Longhand.Proofs.Total
import Longhand.Proofs.TrackedPath
import Longhand.Proofs.Twin
import Longhand.Proofs.Undo
import Longhand.Proofs.Utf8
import Longhand.Proofs.Visible
import Longhand.Proofs.Visit
import Longhand.Proofs.Walk
import Longhand.Rewrite
import Longhand.Run.File
import Longhand.Run.Log
import Longhand.Run.Summary
import Longhand.Scope.Binding
import Longhand.Scope.Calls
import Longhand.Scope.Resolve
import Longhand.Syntax.Fault
import Longhand.Syntax.Grammar.Basic
import Longhand.Syntax.Grammar.CasePattern
import Longhand.Syntax.Grammar.Expression
import Longhand.Syntax.Grammar.Statement
import Longhand.Syntax.Grammar.StringLiteral
import Longhand.Syntax.Grammar.Target
import Longhand.Syntax.Grammar.TypeAnnotation
import Longhand.Syntax.Layout
import Longhand.Syntax.Parse
import Longhand.Syntax.Token
import Longhand.Syntax.Tree
import Longhand.Text.CharClass
import Longhand.Text.CharTable.Alphabetic
import Longhand.Text.CharTable.Extending
import Longhand.Text.CharTable.IdentifierContinue
import Longhand.Text.CharTable.IdentifierStart
import Longhand.Text.CharTable.Numeric
import Longhand.Text.CharTable.Unprintable
import Longhand.Text.Distance
import Longhand.Text.Quoted
import Longhand.Text.Span
import Longhand.Text.Split
import Longhand.Text.Utf8
import Longhand.Tracked.Set
import Longhand.Tracked.Spec
import Longhand.Proofs.Respelled
import Longhand.Proofs.Comprehension
import Longhand.Proofs.ModuleTables
import Longhand.Proofs.Shortcut
import Longhand.Proofs.Reparsed
import Longhand.Proofs.Rerun
import Longhand.Proofs.Distance
import Longhand.Proofs.Versions
import Longhand.Proofs.Spelled
import Longhand.Proofs.Discovered
import Longhand.Proofs.Expanded
import Longhand.Proofs.Coloured
import Longhand.Proofs.Faults
