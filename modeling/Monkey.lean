import Monkey.Builtin.Call
import Monkey.Builtin.Name
import Monkey.CommandLine.Arguments
import Monkey.CommandLine.Failure
import Monkey.CommandLine.Report
import Monkey.Eval.Approximation
import Monkey.Eval.Congruence
import Monkey.Eval.Evaluator
import Monkey.Eval.Machine
import Monkey.Eval.Tree
import Monkey.EvalError
import Monkey.Json.Shape
import Monkey.Json.Text
import Monkey.Json.Token
import Monkey.Json.Tree
import Monkey.Main
import Monkey.Operation
import Monkey.Printer
import Monkey.Store
import Monkey.Syntax.Accesses
import Monkey.Syntax.Basic
import Monkey.Syntax.Decoding
import Monkey.Syntax.Encoding
import Monkey.Syntax.Labelling
import Monkey.Syntax.Names
import Monkey.Syntax.Nesting
import Monkey.Syntax.Occurrences
import Monkey.Syntax.Returns
import Monkey.Syntax.Shorthand
import Monkey.Syntax.Source
import Monkey.Text.Printable
import Monkey.Text.Quoted
import Monkey.Value.Basic
import Monkey.Value.Render
import Monkey.Proofs.Entry
import Monkey.Proofs.Application
import Monkey.Proofs.Preservation
import Monkey.Proofs.Termination
import Monkey.Proofs.Isolation
import Monkey.Proofs.Rules
import Monkey.Proofs.OperatorRules
import Monkey.Proofs.Refinement
import Monkey.Proofs.Moments
import Monkey.Proofs.Course
import Monkey.Proofs.Uncatchable
import Monkey.Proofs.PendingReturn
import Monkey.Proofs.Printed
import Monkey.Proofs.CutShort
import Monkey.Proofs.Limit
import Monkey.Proofs.Likeness
import Monkey.Proofs.Unread
import Monkey.Proofs.Mirror
import Monkey.Proofs.Renumbering
import Monkey.Proofs.Reachable
import Monkey.Proofs.Repetition
import Monkey.Proofs.Accounting
import Monkey.Proofs.BothWays
import Monkey.Proofs.Pairing
import Monkey.Proofs.Transparency
import Monkey.Proofs.Hoisting
import Monkey.Proofs.SideBySide
import Monkey.Proofs.Irrelevance
import Monkey.Proofs.Chains
import Monkey.Proofs.Scoping
import Monkey.Json.Grammar
import Monkey.Proofs.Lexemes
import Monkey.Proofs.Scanning
import Monkey.Proofs.Documents
import Monkey.Json.Nesting
import Monkey.Proofs.Writing
import Monkey.Proofs.Brackets
import Monkey.Syntax.Rewording
import Monkey.Proofs.Normalisation
import Monkey.Proofs.SchemaReading
import Monkey.Proofs.RoundTrip
import Monkey.Proofs.Reading
import Monkey.Proofs.Restating
import Monkey.Syntax.Lexeme
import Monkey.Proofs.Lexing
import Monkey.Proofs.Unambiguous
import Monkey.Proofs.Trace
import Monkey.Proofs.Output
import Monkey.Text.ByteOrder
import Monkey.Proofs.History
import Monkey.Proofs.Environments
import Monkey.Proofs.ErrorMessages
import Monkey.Proofs.Pieces
import Monkey.Proofs.TrueErrors
import Monkey.Syntax.Relabelling
import Monkey.Proofs.Rendering
import Monkey.Proofs.Arithmetic
import Monkey.Proofs.LanguageEquality
import Monkey.Proofs.HostEquality
import Monkey.Proofs.Reports
import Monkey.Proofs.Sequences
import Monkey.Proofs.RunArguments
import Monkey.Proofs.Sequencing
