import MiniLisp.CommandLine
import MiniLisp.Config
import MiniLisp.Config.Reader
import MiniLisp.Environment
import MiniLisp.Evaluator
import MiniLisp.Event
import MiniLisp.Fault
import MiniLisp.Json.Fault
import MiniLisp.Json.Scan
import MiniLisp.Json.Skip
import MiniLisp.Main
import MiniLisp.Number.Decimal
import MiniLisp.Number.Shortest
import MiniLisp.Output
import MiniLisp.Primitive
import MiniLisp.Primitive.HigherOrder
import MiniLisp.Primitive.Operation
import MiniLisp.Proofs.CommandLine.Arguments
import MiniLisp.Proofs.CommandLine.Transcript
import MiniLisp.Proofs.Config.Reading
import MiniLisp.Proofs.Machine.OpenCalls
import MiniLisp.Proofs.Machine.Primitives
import MiniLisp.Proofs.Primitive.Closure
import MiniLisp.Proofs.Primitive.Comparisons
import MiniLisp.Proofs.Primitive.Grouping
import MiniLisp.Proofs.Reader.Descent
import MiniLisp.Proofs.Reader.Literals
import MiniLisp.Proofs.Reader.Marks
import MiniLisp.Proofs.Reader.Printing
import MiniLisp.Proofs.Reader.Scan
import MiniLisp.Proofs.Run.Basic
import MiniLisp.Proofs.Run.Bindings
import MiniLisp.Proofs.Run.Calls
import MiniLisp.Proofs.Run.Depth
import MiniLisp.Proofs.Run.Failure
import MiniLisp.Proofs.Run.Growth
import MiniLisp.Proofs.Run.HigherOrder
import MiniLisp.Proofs.Run.Interchange
import MiniLisp.Proofs.Run.Locality
import MiniLisp.Proofs.Run.Provided
import MiniLisp.Proofs.Run.Range
import MiniLisp.Proofs.Run.Renaming
import MiniLisp.Proofs.Run.Sequence
import MiniLisp.Proofs.Session.Capacity
import MiniLisp.Proofs.Session.Echo
import MiniLisp.Proofs.Session.Faults
import MiniLisp.Proofs.Session.Identity
import MiniLisp.Proofs.Session.Reset
import MiniLisp.Proofs.Token.Layout
import MiniLisp.Proofs.Value.Equality
import MiniLisp.Proofs.Value.Unambiguous
import MiniLisp.Reader
import MiniLisp.Run
import MiniLisp.Session
import MiniLisp.Template
import MiniLisp.Text.Blank
import MiniLisp.Text.Cut
import MiniLisp.Text.Lines
import MiniLisp.Token
import MiniLisp.Token.Lexer
import MiniLisp.Value
import MiniLisp.Value.Equal
import MiniLisp.Value.Text
