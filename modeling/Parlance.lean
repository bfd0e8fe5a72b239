import Parlance.Main
import Parlance.Proofs.Contract
import Parlance.Proofs.Discipline
import Parlance.Proofs.Discipline.Runs
import Parlance.Proofs.Discipline.Expr
import Parlance.Proofs.Discipline.Stmt
import Parlance.Proofs.Discipline.Run
import Parlance.Proofs.ControlFlow
import Parlance.Proofs.Grammar.Phrase
import Parlance.Proofs.Grammar.Reading
import Parlance.Proofs.Lexing
import Parlance.Proofs.Grammar.Expr
import Parlance.Proofs.Grammar.Stmt
import Parlance.Proofs.Grammar.Sentence
import Parlance.Proofs.Scoping
import Parlance.Proofs.Scoping.Variables
import Parlance.Proofs.Scoping.Lexical
import Parlance.Proofs.Coverage
import Parlance.Proofs.Callers
import Parlance.Proofs.Termination
import Parlance.Proofs.Confinement
import Parlance.Proofs.Printing
import Parlance.Proofs.Printing.Spelling
import Parlance.Proofs.Printing.Tokens
import Parlance.Proofs.Printing.RoundTrip
import Parlance.Proofs.Text.Line
import Parlance.Proofs.Lexing.Layout
import Parlance.Proofs.Lexing.Relexing
import Parlance.Proofs.Text.Unbroken
import Parlance.Proofs.Quoted
import Parlance.Proofs.Marked
import Parlance.Proofs.Grammar.Anchored
import Parlance.Proofs.Typing.Anchored
import Parlance.Proofs.Anchored
import Parlance.Proofs.Simulation
import Parlance.Proofs.Simulation.Eval
import Parlance.Proofs.Steady
import Parlance.Proofs.Nesting
import Parlance.Proofs.FrameDepth
import Parlance.Proofs.Resolution
import Parlance.Proofs.Parallel
import Parlance.Proofs.Sorting
import Parlance.Proofs.Plain
import Parlance.Proofs.Plain.Operation
import Parlance.Proofs.Plain.Tidy
import Parlance.Proofs.Plain.Builtin
import Parlance.Proofs.Plain.Eval
import Parlance.Proofs.Reporting
import Parlance.Proofs.Grammar.Formed
import Parlance.Proofs.Typing.Closed
import Parlance.Proofs.Arguments
import Parlance.Proofs.Scoping.Binding
import Parlance.Proofs.Channel.Protocol
import Parlance.Proofs.Integer
import Parlance.Proofs.Progression
import Parlance.Proofs.Arithmetic
import Parlance.Proofs.Heap.Equality
import Parlance.Proofs.Heap.Display
import Parlance.Proofs.Heap.Sequence
import Parlance.Proofs.Heap.Store
import Parlance.Proofs.Text.Encoding
import Parlance.Proofs.Sorting.Stable
import Parlance.Proofs.Sorting.InPlace
import Parlance.Proofs.Double.Rounding
import Parlance.Proofs.Double.Conversion
import Parlance.Proofs.Sorting.Integers
import Parlance.Proofs.Decimal.Reading
import Parlance.Proofs.Builtin
import Parlance.Proofs.Lexing.Number
import Parlance.Proofs.Grammar.Literal
import Parlance.Proofs.Grammar.Ending
import Parlance.Proofs.Frames.Tree
import Parlance.Proofs.Printing.Integer
import Parlance.Proofs.Console
import Parlance.Proofs.Handled
import Parlance.Proofs.Dictionary.Contents
import Parlance.Proofs.Dictionary.Sparing
import Parlance.Proofs.Dictionary
