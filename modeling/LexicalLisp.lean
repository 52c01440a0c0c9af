import LexicalLisp.Cursor
import LexicalLisp.Main
import LexicalLisp.Number.Entry
import LexicalLisp.Proofs.CommandLine.Depth
import LexicalLisp.Proofs.CommandLine.LineEnds
import LexicalLisp.Proofs.Console.Agreement
import LexicalLisp.Proofs.Console.Grouping
import LexicalLisp.Proofs.Console.Responses
import LexicalLisp.Proofs.Console.Sources
import LexicalLisp.Proofs.Decimal.Rounding
import LexicalLisp.Proofs.Eval.Actions
import LexicalLisp.Proofs.Eval.Assignment
import LexicalLisp.Proofs.Eval.CallFrame
import LexicalLisp.Proofs.Eval.CallFree
import LexicalLisp.Proofs.Eval.Congruence
import LexicalLisp.Proofs.Eval.Correspondence
import LexicalLisp.Proofs.Eval.Depth
import LexicalLisp.Proofs.Eval.Discipline
import LexicalLisp.Proofs.Eval.Footprint
import LexicalLisp.Proofs.Eval.Hidden
import LexicalLisp.Proofs.Eval.Locality
import LexicalLisp.Proofs.Eval.Moves
import LexicalLisp.Proofs.Eval.Questions
import LexicalLisp.Proofs.Eval.Shape
import LexicalLisp.Proofs.Eval.Steps
import LexicalLisp.Proofs.Number.Grammar
import LexicalLisp.Proofs.Number.ReadBack
import LexicalLisp.Proofs.Reader.Balance
import LexicalLisp.Proofs.Reader.Grammar
import LexicalLisp.Proofs.Reader.Outcome
import LexicalLisp.Proofs.Reader.Taking
import LexicalLisp.Proofs.Rename.Frames
import LexicalLisp.Proofs.Rename.Simulation
import LexicalLisp.Proofs.Rename.Syntax
import LexicalLisp.Proofs.Rename.World
import LexicalLisp.Proofs.Session.Calls
import LexicalLisp.Proofs.Session.Coherence
import LexicalLisp.Proofs.Session.Invariants
import LexicalLisp.Proofs.Session.Joined
import LexicalLisp.Proofs.Session.Operators
import LexicalLisp.Proofs.Session.Plain
import LexicalLisp.Proofs.Session.Printed
import LexicalLisp.Proofs.Session.Roots
import LexicalLisp.Proofs.Session.Separation
import LexicalLisp.Proofs.Session.Soundness
import LexicalLisp.Proofs.Store.Coherence
import LexicalLisp.Proofs.Store.Contents
import LexicalLisp.Proofs.Store.Finding
import LexicalLisp.Proofs.Store.Hidden
import LexicalLisp.Proofs.Store.Nesting
import LexicalLisp.Proofs.Store.Reach
import LexicalLisp.Proofs.Store.Writes
import LexicalLisp.Proofs.Token.Concatenation
import LexicalLisp.Proofs.Token.Munch
import LexicalLisp.Proofs.Tracking.Following
import LexicalLisp.Proofs.Tracking.Moments
import LexicalLisp.Proofs.Tracking.Nesting
import LexicalLisp.Proofs.Tracking.Places
import LexicalLisp.Proofs.Tracking.Requests
import LexicalLisp.Proofs.Tracking.Run
import LexicalLisp.Proofs.Value.Closures
import LexicalLisp.Proofs.Value.Equality
import LexicalLisp.Proofs.Value.Equivalence
import LexicalLisp.Proofs.Value.Indentation
import LexicalLisp.Proofs.Value.Layout
import LexicalLisp.Proofs.Value.NormalForm
import LexicalLisp.Proofs.Value.ReadBack
import LexicalLisp.Proofs.Value.Trees
import LexicalLisp.Proofs.Value.Width
import LexicalLisp.Proofs.Value.Words
