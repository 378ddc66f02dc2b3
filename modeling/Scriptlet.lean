import Scriptlet.Batch
import Scriptlet.Cause
import Scriptlet.CommandLine
import Scriptlet.CommandLine.Arguments
import Scriptlet.Diagnostic
import Scriptlet.Evaluation
import Scriptlet.Files
import Scriptlet.Frame
import Scriptlet.FrontEnd
import Scriptlet.FrontEnd.Parsed
import Scriptlet.FrontEnd.Recovering
import Scriptlet.FrontEnd.Strict
import Scriptlet.Json
import Scriptlet.Json.Printer
import Scriptlet.Json.Reader
import Scriptlet.Lexeme
import Scriptlet.Main
import Scriptlet.Node
import Scriptlet.Node.Json
import Scriptlet.Number.Binary64
import Scriptlet.Number.Notation
import Scriptlet.Number.Numeral
import Scriptlet.Number.Shortest
import Scriptlet.Operation
import Scriptlet.Piece
import Scriptlet.Proofs.CommandLine.Complaints
import Scriptlet.Proofs.CommandLine.Trees
import Scriptlet.Proofs.Files.Writing
import Scriptlet.Proofs.FrontEnd.Agreement
import Scriptlet.Proofs.FrontEnd.Composition
import Scriptlet.Proofs.FrontEnd.Lexemes
import Scriptlet.Proofs.FrontEnd.Names
import Scriptlet.Proofs.FrontEnd.Places
import Scriptlet.Proofs.FrontEnd.PrefixForm
import Scriptlet.Proofs.FrontEnd.Runs
import Scriptlet.Proofs.FrontEnd.Statements
import Scriptlet.Proofs.Json.RoundTrip
import Scriptlet.Proofs.Running.Bindings
import Scriptlet.Proofs.Running.Containment
import Scriptlet.Proofs.Running.Faults
import Scriptlet.Proofs.Running.Locality
import Scriptlet.Proofs.Running.Relabelling
import Scriptlet.Proofs.Running.Statements
import Scriptlet.Proofs.Running.Texts
import Scriptlet.Proofs.Scanning.Atoms
import Scriptlet.Proofs.Scanning.Composition
import Scriptlet.Proofs.Scanning.Lines
import Scriptlet.Proofs.Scanning.Numerals
import Scriptlet.Proofs.Scanning.Pieces
import Scriptlet.Proofs.Scanning.Tiling
import Scriptlet.Proofs.Scopes.Frames
import Scriptlet.Proofs.Scopes.Unwinding
import Scriptlet.Proofs.Scopes.Writing
import Scriptlet.Proofs.Session.Agreement
import Scriptlet.Proofs.Session.Answers
import Scriptlet.Proofs.Session.Bindings
import Scriptlet.Proofs.Session.Composition
import Scriptlet.Proofs.Session.Quotations
import Scriptlet.Proofs.Session.Verbosity
import Scriptlet.Proofs.Syntax.Completeness
import Scriptlet.Proofs.Syntax.Earliest
import Scriptlet.Proofs.Syntax.Grammar
import Scriptlet.Proofs.Syntax.Progress
import Scriptlet.Proofs.Syntax.Readings
import Scriptlet.Proofs.Syntax.Recovery
import Scriptlet.Proofs.Syntax.Relabelling
import Scriptlet.Proofs.Syntax.Reports
import Scriptlet.Proofs.Syntax.Serialization
import Scriptlet.Proofs.Syntax.Soundness
import Scriptlet.Proofs.Syntax.Spellings
import Scriptlet.Reading
import Scriptlet.Run
import Scriptlet.Scan
import Scriptlet.Scopes
import Scriptlet.Scopes.Step
import Scriptlet.Session
import Scriptlet.Text.HiddenSpans
import Scriptlet.Text.LineBreaks
import Scriptlet.Text.Quoted
import Scriptlet.Text.Slices
import Scriptlet.Text.WordClass
import Scriptlet.Text.WordSpans
import Scriptlet.Token
import Scriptlet.Value
