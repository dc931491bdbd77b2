import ShiftReduce.Lexer.Cut
import ShiftReduce.Source

/-!
The lexer reads program text as a source of tokens. It cuts piece after piece off the text, skips
layout, counts lines, and gives every other piece out as a token on the line reached. Once the
text is used up it gives out end tokens on the last line for ever.
-/

namespace ShiftReduce

/-- The text still to be read, the line reached, and the kind of the last token given out. -/
structure Lexer where
  rest : List Char
  line : Nat := 1
  previous : Option Terminal := none
  deriving DecidableEq, Repr

namespace Lexer

/-- The lexer in front of a text. -/
def ofString (text : String) : Lexer := { rest := text.toList }

/-- Gives a piece out as a token, with its text if the kind carries one. -/
def give (lexer : Lexer) (kind : Terminal) (cut : Cut) : Token × Lexer :=
  (⟨kind, if kind.carriesText then some (String.ofList cut.lexeme) else none, lexer.line⟩,
    { lexer with rest := cut.rest, previous := some kind })

/-- The next token; behind the text it is the end token, again and again. -/
def next (lexer : Lexer) : Token × Lexer :=
  match _whole : lexer.rest with
  | [] => (.atEnd lexer.line, lexer)
  | first :: text =>
    match (Cut.of first text).piece with
    | .layout => next { lexer with rest := (Cut.of first text).rest }
    | .newline => next { lexer with rest := (Cut.of first text).rest, line := lexer.line + 1 }
    | .dash => lexer.give (dashKind lexer.previous) (Cut.of first text)
    | .token kind => lexer.give kind (Cut.of first text)
termination_by lexer.rest.length
decreasing_by all_goals simpa [_whole] using Cut.length_rest_lt first text

/-- A token that is no end token has used up some of the text. -/
theorem length_rest_next_lt (lexer : Lexer) (h : lexer.next.1.kind ≠ .endOfInput) :
    lexer.next.2.rest.length < lexer.rest.length := by
  fun_induction next lexer with
  | case1 lexer eq => exact absurd rfl h
  | case2 lexer first text eq piece ih =>
    have step := Cut.length_rest_lt first text
    exact Nat.lt_trans (ih h) (by simpa [eq] using step)
  | case3 lexer first text eq piece ih =>
    have step := Cut.length_rest_lt first text
    exact Nat.lt_trans (ih h) (by simpa [eq] using step)
  | case4 lexer first text eq piece => simpa [eq, give] using Cut.length_rest_lt first text
  | case5 lexer first text eq kind piece => simpa [eq, give] using Cut.length_rest_lt first text

instance : FiniteSource Lexer where
  next := next
  remaining lexer := lexer.rest.length
  remaining_next := length_rest_next_lt

end Lexer

/-- The tokens of a text. -/
def tokenize (text : String) : List Token := FiniteSource.tokens (Lexer.ofString text)

end ShiftReduce
