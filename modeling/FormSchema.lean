import FormSchema.Binary64
import FormSchema.Binary64.Nearest
import FormSchema.Binary64.Shortest
import FormSchema.Command.Arguments
import FormSchema.Command.Basic
import FormSchema.Command.Documents
import FormSchema.Command.Error
import FormSchema.Command.Plan
import FormSchema.Command.Report
import FormSchema.Command.Run
import FormSchema.Decoding.Container
import FormSchema.Decoding.Cursor
import FormSchema.Decoding.Fault
import FormSchema.Decoding.Kinds
import FormSchema.Decoding.NumberText
import FormSchema.Decoding.Path
import FormSchema.Decoding.Skip
import FormSchema.Decoding.StringText
import FormSchema.Decoding.Value
import FormSchema.Files.Basic
import FormSchema.Files.Tree
import FormSchema.Filter.Basic
import FormSchema.Filter.Datum
import FormSchema.Filter.Language
import FormSchema.Filter.Reader
import FormSchema.Filter.Token
import FormSchema.Glob.Expand
import FormSchema.Glob.Pattern
import FormSchema.Json.Basic
import FormSchema.Json.Pointer
import FormSchema.Json.Printer
import FormSchema.Main
import FormSchema.Members
import FormSchema.Numeral
import FormSchema.Primitive
import FormSchema.Proofs.Schema.Checked
import FormSchema.Proofs.Schema.Shape
import FormSchema.Proofs.Schema.Tree
import FormSchema.Proofs.Validation.Allowance
import FormSchema.Proofs.Validation.Chain
import FormSchema.Proofs.Validation.Conformance
import FormSchema.Proofs.Validation.DepthLimit
import FormSchema.Proofs.Validation.Descent
import FormSchema.Proofs.Validation.Expansion
import FormSchema.Proofs.Validation.Find
import FormSchema.Proofs.Validation.FindingLimit
import FormSchema.Proofs.Validation.Lead
import FormSchema.Proofs.Validation.Parting
import FormSchema.Proofs.Validation.Replay
import FormSchema.Proofs.Validation.Simulation
import FormSchema.Proofs.Validation.Trace
import FormSchema.Proofs.Validation.Unlimited
import FormSchema.Proofs.Validation.Verdict
import FormSchema.Schema.Basic
import FormSchema.Schema.Decode
import FormSchema.Schema.Edit
import FormSchema.Schema.Encode
import FormSchema.Schema.Equivalence
import FormSchema.Schema.Keyword
import FormSchema.Schema.Text
import FormSchema.Schema.Verify
import FormSchema.Suite.Case
import FormSchema.Suite.NamePattern
import FormSchema.Suite.Run
import FormSchema.Text.Blank
import FormSchema.Text.Invisible
import FormSchema.Text.Order
import FormSchema.Text.Quoted
import FormSchema.Text.Split
import FormSchema.Timestamp
import FormSchema.Validation.Event
import FormSchema.Validation.Finding
import FormSchema.Validation.Validator
import FormSchema.Validation.Walk
import FormSchema.Proofs.Schema.Violations
import FormSchema.Proofs.Schema.WellFormed
import FormSchema.Proofs.Validation.Recursion
import FormSchema.Proofs.Validation.Looping
import FormSchema.Proofs.Json.Pointer
import FormSchema.Proofs.Json.Proper
import FormSchema.Proofs.Schema.Document
import FormSchema.Proofs.Validation.Breach
import FormSchema.Proofs.Validation.Findings
import FormSchema.Proofs.Validation.Justification
import FormSchema.Proofs.Validation.Distinct
import FormSchema.Proofs.Decoding.Yields
import FormSchema.Proofs.Schema.Proper
import FormSchema.Proofs.Json.Matching
import FormSchema.Proofs.Json.Equivalence
import FormSchema.Proofs.Schema.Settings
import FormSchema.Proofs.Schema.Reading
import FormSchema.Proofs.Schema.Equivalence
import FormSchema.Proofs.Validation.Reordering
import FormSchema.Proofs.Schema.Grammar
import FormSchema.Proofs.Schema.NormalForm
import FormSchema.Proofs.Schema.RoundTrip
import FormSchema.Proofs.Decoding.Transcript
import FormSchema.Proofs.Decoding.Punctuation
import FormSchema.Proofs.Decoding.Strings
import FormSchema.Proofs.Decoding.Locality
import FormSchema.Proofs.Decoding.Skipping
import FormSchema.Proofs.Decoding.Agreement
import FormSchema.Proofs.Schema.Repetition
import FormSchema.Proofs.Schema.PrimitiveReading
import FormSchema.Proofs.Schema.TextReading
import FormSchema.Proofs.Validation.Watching
import FormSchema.Proofs.Validation.Reach
import FormSchema.Proofs.Json.Layout
import FormSchema.Proofs.Decoding.ReadBack
import FormSchema.Proofs.Text.Lines
import FormSchema.Proofs.Files.Writing
import FormSchema.Proofs.Command.Outcomes
import FormSchema.Proofs.Command.Stages
import FormSchema.Proofs.Command.Documents
import FormSchema.Proofs.Command.Loading
import FormSchema.Proofs.Command.Runs
import FormSchema.Proofs.Attempt
import FormSchema.Proofs.Command.Failing
import FormSchema.Proofs.Command.Reporting
import FormSchema.Proofs.Validation.Relocation
import FormSchema.Proofs.Validation.Transparency
import FormSchema.Proofs.Validation.Branches
import FormSchema.Proofs.Validation.Locality
import FormSchema.Proofs.Schema.Fitting
import FormSchema.Proofs.Command.Printing
import FormSchema.Proofs.Json.Following
import FormSchema.Proofs.Validation.Log
import FormSchema.Proofs.Schema.FirstFault
import FormSchema.Proofs.Schema.Opening
import FormSchema.Proofs.Validation.Opening
import FormSchema.Proofs.Binary64.Integers
import FormSchema.Proofs.Primitive
import FormSchema.Proofs.Validation.Wire
import FormSchema.Proofs.Suite.Accounting
import FormSchema.Proofs.Decoding.Trailing
import FormSchema.Proofs.Command.LineDocuments
import FormSchema.Proofs.Validation.Scripts
import FormSchema.Proofs.Validation.Stepping
import FormSchema.Proofs.Validation.Keeping
