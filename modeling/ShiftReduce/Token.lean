import ShiftReduce.Symbol

/-!
Tokens: a terminal, the text it was read from where the kind carries one, and the line it stands
on. Nothing here forces a token's text to fit its kind; the lexer's tokens always do, and a token
made by hand is shown as it is.
-/

namespace ShiftReduce

/-- One token of a program. -/
structure Token where
  kind : Terminal
  text : Option String
  line : Nat
  deriving DecidableEq, Repr

namespace Token

/-- A token without text. -/
def bare (kind : Terminal) (line : Nat) : Token := ⟨kind, none, line⟩

/-- The token that marks the end of the input on the given line. -/
def atEnd (line : Nat) : Token := bare .endOfInput line

/-- How messages and trees show a token: its kind, and its text between backquotes if it has one. -/
def describe (token : Token) : String :=
  match token.text with
  | none => token.kind.name
  | some text => token.kind.name ++ " `" ++ text ++ "`"

/-- What the token looks like in program text: its own text, or else its kind's one spelling. -/
def lexeme (token : Token) : String :=
  token.text.getD (token.kind.spelling.getD "")

end Token

end ShiftReduce
