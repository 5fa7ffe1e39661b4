import PascalCasl.Text.Blank
import PascalCasl.Text.Decimal
import PascalCasl.Text.Lines
import PascalCasl.Text.Quoted
import PascalCasl.Text.Utf8
import PascalCasl.Fault
import PascalCasl.Token.Basic
import PascalCasl.Token.Piece
import PascalCasl.Token.Scanner
import PascalCasl.Token.Stream
import PascalCasl.Grammar.Expr
import PascalCasl.Grammar.Cursor
import PascalCasl.Casl.Basic
import PascalCasl.Casl.Render
import PascalCasl.Typing.Basic
import PascalCasl.Typing.Check
import PascalCasl.Code.Expr
import PascalCasl.Code.Listing
import PascalCasl.Compile
import PascalCasl.Command.Basic
import PascalCasl.Command.FileSystem
import PascalCasl.Command.FileTree
import PascalCasl.Command.Run
import PascalCasl.Proofs.Grammar.Outcome
import PascalCasl.Proofs.Grammar.Soundness
import PascalCasl.Proofs.Grammar.Completeness
import PascalCasl.Proofs.Grammar.Exactness
import PascalCasl.Proofs.Grammar.Guidance
import PascalCasl.Proofs.Grammar.FirstFault
import PascalCasl.Proofs.Text.Utf8
import PascalCasl.Proofs.Text.Lines
import PascalCasl.Proofs.Text.Decimal
import PascalCasl.Proofs.Token.Lexeme
import PascalCasl.Proofs.Token.Pieces
import PascalCasl.Proofs.Token.Scanning
import PascalCasl.Proofs.Token.Stream
import PascalCasl.Proofs.Typing.Declarations
import PascalCasl.Proofs.Typing.Exactness
import PascalCasl.Proofs.Code.Agreement
import PascalCasl.Proofs.Code.Generation
import PascalCasl.Proofs.Meaning.Machine
import PascalCasl.Proofs.Code.Inversion
import PascalCasl.Proofs.Code.Labels
import PascalCasl.Proofs.Code.Closure
import PascalCasl.Proofs.Simulation.Placement
import PascalCasl.Proofs.Simulation.Memory
import PascalCasl.Proofs.Simulation.Run
import PascalCasl.Proofs.Code.Storage
import PascalCasl.Proofs.Code.Procedures
import PascalCasl.Proofs.Code.Regions
import PascalCasl.Proofs.Code.StorageLayout
import PascalCasl.Proofs.Code.Occurrence
import PascalCasl.Proofs.Code.StackHeight
import PascalCasl.Proofs.Code.StackDiscipline
import PascalCasl.Proofs.Simulation.Storage
import PascalCasl.Proofs.Simulation.Invariant
import PascalCasl.Proofs.Simulation.Expr
import PascalCasl.Proofs.Simulation.Transfer
import PascalCasl.Proofs.Simulation.Stmt
import PascalCasl.Proofs.Simulation.Activation
import PascalCasl.Proofs.Simulation.Call
import PascalCasl.Proofs.Simulation.Library
import PascalCasl.Proofs.Simulation.Program
import PascalCasl.Proofs.Code.CallSites
import PascalCasl.Proofs.Invariance.Relabelling
import PascalCasl.Proofs.Invariance.Reading
import PascalCasl.Proofs.Invariance.Checking
import PascalCasl.Proofs.Invariance.Generation
import PascalCasl.Proofs.Invariance.Lines
import PascalCasl.Proofs.Invariance.Names
import PascalCasl.Proofs.Invariance.Location
import PascalCasl.Proofs.Invariance.EndMark
import PascalCasl.Proofs.Command.FileSystem
import PascalCasl.Proofs.Command.FileTree
import PascalCasl.Proofs.Command.Steps
import PascalCasl.Proofs.Command.Atomicity
import PascalCasl.Proofs.Token.Beginning
import PascalCasl.Proofs.Token.Faults
import PascalCasl.Proofs.Token.Composition
import PascalCasl.Proofs.Literals.Reading
import PascalCasl.Proofs.Literals.Table
import PascalCasl.Proofs.Literals.Printed
import PascalCasl.Proofs.Literals.Survival
import PascalCasl.Proofs.Casl.Reading
import PascalCasl.Proofs.Code.Rendering
import PascalCasl.Proofs.Tree.Outline
import PascalCasl.Proofs.Tree.Printing
import PascalCasl.Proofs.Numbers.Code
import PascalCasl.Proofs.Numbers.Exactness
import PascalCasl.Proofs.Comet.Core
import PascalCasl.Proofs.Comet.Segment
import PascalCasl.Proofs.Comet.Library
import PascalCasl.Proofs.Comet.Host
import PascalCasl.Proofs.Comet.Routine
import PascalCasl.Proofs.Comet.Multiply
import PascalCasl.Proofs.Comet.Divide
import PascalCasl.Proofs.Comet.Arithmetic
import PascalCasl.Proofs.Comet.WriteInteger
import PascalCasl.Proofs.Comet.HeldLine
import PascalCasl.Proofs.Comet.ReadInteger
import PascalCasl.Proofs.Comet.Integers
import PascalCasl.Proofs.Simulation.Bundled
import PascalCasl.Proofs.Machine
import PascalCasl.Proofs.Token.ByteSteps
import PascalCasl.Proofs.Token.ByteRuns
import PascalCasl.Proofs.Grammar.Predictive
import PascalCasl.Proofs.Grammar.Goals
import PascalCasl.Proofs.Grammar.Progress
import PascalCasl.Proofs.Code.Blocks
import PascalCasl.Proofs.Code.LabelOrder
import PascalCasl.Proofs.Library.Appending
