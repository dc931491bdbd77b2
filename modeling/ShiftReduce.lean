import ShiftReduce.Lexer.Lexeme
import ShiftReduce.Main
import ShiftReduce.Table.Grid
import ShiftReduce.Tree.Derivation
import ShiftReduce.Tree.Postorder
import ShiftReduce.Tree.Relabel
import ShiftReduce.Proofs.Effect
import ShiftReduce.Proofs.Run
import ShiftReduce.Proofs.Linked
import ShiftReduce.Proofs.Items
import ShiftReduce.Proofs.Kernels
import ShiftReduce.Proofs.Alike
import ShiftReduce.Proofs.Upcoming
import ShiftReduce.Proofs.Pulled
import ShiftReduce.Proofs.Sound
import ShiftReduce.Proofs.Soundness
import ShiftReduce.Proofs.Completeness
import ShiftReduce.Proofs.Acceptance
import ShiftReduce.Proofs.CorrectPrefix
import ShiftReduce.Proofs.Marks
import ShiftReduce.Proofs.Termination
import ShiftReduce.Proofs.Lexemes
import ShiftReduce.Proofs.Lossless
import ShiftReduce.Proofs.Operands
import ShiftReduce.Proofs.RoundTrip
import ShiftReduce.Proofs.Entries
import ShiftReduce.Proofs.Endings
import ShiftReduce.Proofs.Reports
import ShiftReduce.Proofs.Dashes
import ShiftReduce.Proofs.Lockstep
import ShiftReduce.Proofs.Continuations
import ShiftReduce.Proofs.Expected
import ShiftReduce.Lexer.Pattern
import ShiftReduce.Proofs.LongestMatch
import ShiftReduce.Proofs.Reductions
import ShiftReduce.Proofs.LineByLine
import ShiftReduce.Proofs.Rewritten
import ShiftReduce.Language.Precedence
import ShiftReduce.Proofs.Grouping
import ShiftReduce.Tree.Preorder
import ShiftReduce.Proofs.Labels
import ShiftReduce.Proofs.Outlines
import ShiftReduce.Stack.History
import ShiftReduce.Proofs.Histories
import ShiftReduce.Proofs.Agreement
import ShiftReduce.Proofs.StartLines
import ShiftReduce.Proofs.Grids
import ShiftReduce.Proofs.Listings
import ShiftReduce.Proofs.Popping
