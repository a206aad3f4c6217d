import Betty.Main
import Betty.Proofs.Outcome
import Betty.Proofs.Scope
import Betty.Proofs.Parser.Moves
import Betty.Proofs.Parser.Rules.Programs
import Betty.Proofs.Parser.Loops
import Betty.Proofs.Token.Stream
import Betty.Proofs.Parser.Progress
import Betty.Proofs.Clean
import Betty.Proofs.Parser.CleanParse
import Betty.Proofs.Program.Print
import Betty.Proofs.Parser.RoundTrip
import Betty.Proofs.Token.Partition
import Betty.Proofs.Token.Written
import Betty.Proofs.Parser.Recovery
import Betty.Proofs.Jumps
import Betty.Proofs.Environment.Tree
import Betty.Proofs.Reach
import Betty.Proofs.Names
import Betty.Proofs.Globals
import Betty.Proofs.Parser.Lexemes
import Betty.Proofs.Blame
import Betty.Proofs.Streams
import Betty.Proofs.Editor
import Betty.Proofs.Parser.Precedence
import Betty.Proofs.Parser.Resumption
import Betty.Proofs.Parser.Heads
import Betty.Proofs.Parser.Shape
import Betty.Proofs.Machine.Fuel
import Betty.Proofs.Parser.Order
import Betty.Proofs.Switch
import Betty.Proofs.Assignment
import Betty.Proofs.Heap.Unfold
import Betty.Proofs.Heap.Clone
import Betty.Proofs.Environment.Bindings
import Betty.Proofs.Number.Equality
import Betty.Proofs.Number.Exact
import Betty.Proofs.Startup
import Betty.Proofs.Heap.Equality
import Betty.Proofs.Intrinsic
import Betty.Proofs.Declarations
import Betty.Proofs.Diagnostic.Color
import Betty.Proofs.Number.Canonical
import Betty.Proofs.Number.Increment
import Betty.Proofs.Range
import Betty.Proofs.Elements
import Betty.Proofs.Number.Nearest
import Betty.Proofs.Number.Notation
import Betty.Proofs.Token.Numerals
