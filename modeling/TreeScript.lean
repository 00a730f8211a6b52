import TreeScript.Bindings
import TreeScript.CommandLine.Arguments
import TreeScript.CommandLine.Path
import TreeScript.CommandLine.Session
import TreeScript.Data
import TreeScript.Data.Written
import TreeScript.Decimal.Binary64
import TreeScript.Decimal.Notation
import TreeScript.Decimal.Reading
import TreeScript.Decimal.Shortest
import TreeScript.Document.Build
import TreeScript.Document.Decode
import TreeScript.Document.Depths
import TreeScript.Document.Encode
import TreeScript.Document.Fault
import TreeScript.Document.Load
import TreeScript.Json.Decode
import TreeScript.Json.Encode
import TreeScript.Machine.Basic
import TreeScript.Machine.Call
import TreeScript.Machine.CallLaws
import TreeScript.Machine.Eval
import TreeScript.Machine.Fault
import TreeScript.Machine.Intrinsic
import TreeScript.Machine.Laws
import TreeScript.Machine.Limits
import TreeScript.Machine.Operator
import TreeScript.Main
import TreeScript.Runner
import TreeScript.Scope
import TreeScript.Scope.Chain
import TreeScript.Scope.Written
import TreeScript.Syntax.Expr
import TreeScript.Syntax.Outline
import TreeScript.Syntax.Same
import TreeScript.Template.Parse
import TreeScript.Template.Render
import TreeScript.Template.Tag
import TreeScript.Text.Base64
import TreeScript.Text.Blank
import TreeScript.Text.DecimalDigit
import TreeScript.Text.Hex
import TreeScript.Text.Integer
import TreeScript.Text.Printable
import TreeScript.Text.Quoted
import TreeScript.Text.Ranges
import TreeScript.Text.Utf8
import TreeScript.Value.Ancestry
import TreeScript.Value.Change
import TreeScript.Value.Display
import TreeScript.Value.Export
import TreeScript.Value.Heap
import TreeScript.Value.Members
import TreeScript.Value.Printed
import TreeScript.Value.Same
import TreeScript.Yaml.Cursor
import TreeScript.Yaml.Decode
import TreeScript.Yaml.Document
import TreeScript.Yaml.Encode
import TreeScript.Yaml.Fault
import TreeScript.Yaml.Node
import TreeScript.Yaml.Plain
import TreeScript.Yaml.Scalar
import TreeScript.Yaml.ScalarText
import TreeScript.Yaml.Token
import TreeScript.Proofs.Growth
import TreeScript.Proofs.Production
import TreeScript.Proofs.Reach
import TreeScript.Proofs.Discipline
import TreeScript.Proofs.Discipline.Call
import TreeScript.Proofs.Discipline.Evaluation
import TreeScript.Proofs.Discipline.Runner
import TreeScript.Proofs.Drafts
import TreeScript.Proofs.LastingValues
import TreeScript.Proofs.HeadRestored
import TreeScript.Proofs.CallerScope
import TreeScript.Proofs.Confinement
import TreeScript.Proofs.Names
import TreeScript.Proofs.NumberEquality
import TreeScript.Proofs.CodeEquality
import TreeScript.Proofs.ValueEquality
import TreeScript.Proofs.StoredCode
import TreeScript.Proofs.Reached
import TreeScript.Proofs.Arising
import TreeScript.Proofs.ClassOrder
import TreeScript.Proofs.BoundMethods
import TreeScript.Proofs.SuperCalls
import TreeScript.Proofs.Walks
import TreeScript.Proofs.NestedLists
import TreeScript.Proofs.Equality
import TreeScript.Proofs.Relocation
import TreeScript.Proofs.Correspondence
import TreeScript.Proofs.Correspondence.Call
import TreeScript.Proofs.Correspondence.Evaluation
import TreeScript.Proofs.CallList
import TreeScript.Proofs.Places
import TreeScript.Proofs.WholeNumbers
import TreeScript.Proofs.Grammar
import TreeScript.Proofs.AcceptedCode
import TreeScript.Proofs.Reports
import TreeScript.Proofs.PlacedData
import TreeScript.Proofs.PlacedDocuments
import TreeScript.Proofs.Records
import TreeScript.Proofs.Composition
import TreeScript.Proofs.Tracing
import TreeScript.Proofs.Ingredients
import TreeScript.Proofs.Settling
import TreeScript.Proofs.Causes
import TreeScript.Proofs.Causes.Call
import TreeScript.Proofs.Causes.Evaluation
import TreeScript.Proofs.Causes.Runner
import TreeScript.Proofs.BuiltCode
import TreeScript.Proofs.DeclaredFaults
import TreeScript.Proofs.FailingNode
import TreeScript.Proofs.Leftovers
import TreeScript.Proofs.Extension
import TreeScript.Proofs.PlainCode
import TreeScript.Proofs.Matching
import TreeScript.Proofs.Substitution
import TreeScript.Proofs.Dispatch
import TreeScript.Proofs.Definitions
import TreeScript.Proofs.ScopeLaws
import TreeScript.Proofs.PlainTemplates
import TreeScript.Proofs.Interpolation
import TreeScript.Proofs.NumberBits
import TreeScript.Proofs.Rounding
import TreeScript.Proofs.ShortestDigits
import TreeScript.Proofs.WrittenNumbers
import TreeScript.Proofs.JsonRoundTrip
import TreeScript.Proofs.PrintedData
import TreeScript.Proofs.Members
import TreeScript.Proofs.Takes
import TreeScript.Proofs.FieldDefaults
import TreeScript.Proofs.NumbersReadBack
import TreeScript.Proofs.AcceptedDocuments
import TreeScript.Proofs.FieldWrites
import TreeScript.Proofs.Agreement
import TreeScript.Proofs.SpareLevels
import TreeScript.Proofs.MemberWrites
