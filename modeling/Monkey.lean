import Monkey.Directory
import Monkey.Environment.Store
import Monkey.Json.Reader
import Monkey.Main
import Monkey.Proofs.Evaluation.Frame
import Monkey.Proofs.Evaluation.Similar
import Monkey.Proofs.Evaluation.Depth
import Monkey.Proofs.Evaluation.Operators
import Monkey.Proofs.Scope.WellScoped
import Monkey.Proofs.Session.Run
import Monkey.Program.Json
import Monkey.Proofs.Scope.Soundness
import Monkey.Proofs.Evaluation.Coincidence
import Monkey.Proofs.Session.Batch
import Monkey.Proofs.Syntax.Grammar
import Monkey.Proofs.Syntax.Locality
import Monkey.Proofs.Syntax.Reading
import Monkey.Proofs.Syntax.Levels
import Monkey.Proofs.Syntax.Viable
import Monkey.Proofs.Syntax.Completeness
import Monkey.Proofs.Syntax.Soundness
import Monkey.Proofs.Syntax.Recognition
import Monkey.Proofs.Syntax.EarliestFault
import Monkey.Proofs.Evaluation.Effect
import Monkey.Proofs.Evaluation.FreeNames
import Monkey.Proofs.Session.Transaction
import Monkey.Proofs.Lexical.Reference
import Monkey.Proofs.Lexical.Represents
import Monkey.Proofs.Lexical.Simulation
import Monkey.Proofs.Lexical.Adequacy
import Monkey.Proofs.Evaluation.Invariant
import Monkey.Proofs.Scope.Tidy
import Monkey.Proofs.Repl.History
import Monkey.Environment.Shared
import Monkey.Proofs.Environment.Ownership
import Monkey.Proofs.Environment.Stacks
import Monkey.Proofs.Environment.Isolation
import Monkey.Proofs.Syntax.WellFormed
import Monkey.Proofs.Token.LexicalGrammar
import Monkey.Proofs.Token.Decomposition
import Monkey.Token.Scan
import Monkey.Proofs.Token.Scanning
import Monkey.Proofs.Text.Escapes
import Monkey.Proofs.Syntax.Display
import Monkey.Proofs.Syntax.Roundtrip
import Monkey.Proofs.Syntax.Readability
import Monkey.Proofs.Syntax.Spelling
import Monkey.Proofs.Syntax.Words
import Monkey.Proofs.Syntax.Image
import Monkey.Proofs.Evaluation.Context
import Monkey.Proofs.Session.ScopeDepth
import Monkey.Proofs.Syntax.Blindness
import Monkey.Proofs.Token.Respacing
import Monkey.Parser.Tape
import Monkey.Program.Printer
import Monkey.Proofs.Printer.Labels
import Monkey.Proofs.Printer.Recovery
import Monkey.Proofs.Syntax.Indexing
import Monkey.Proofs.Syntax.Bounds
import Monkey.Proofs.Syntax.Blame
import Monkey.Proofs.Identity.Made
import Monkey.Proofs.Identity.Origin
import Monkey.Proofs.Identity.Passing
import Monkey.Proofs.Identity.Soundness
import Monkey.Proofs.Json.Changes
import Monkey.Proofs.Json.Decoding
import Monkey.Proofs.Token.Concatenation
import Monkey.Proofs.Evaluation.Arithmetic
import Monkey.Proofs.Syntax.Nesting
import Monkey.Proofs.Syntax.Termination
import Monkey.Proofs.Evaluation.Correspondence
import Monkey.Proofs.Evaluation.Letting
import Monkey.Proofs.Syntax.Literals
import Monkey.Proofs.Evaluation.Comparisons
import Monkey.Proofs.Json.Roundtrip
import Monkey.Proofs.Text.Utf8
import Monkey.Proofs.Text.Lines
import Monkey.Proofs.Command.Tokens
import Monkey.Repl.Loop
import Monkey.Proofs.Repl.Loop
import Monkey.Proofs.Repl.Framing
import Monkey.Proofs.Token.Strings
import Monkey.Value.Reading
import Monkey.Proofs.Syntax.Integers
import Monkey.Proofs.Evaluation.Faults
import Monkey.Proofs.Command.Modes
