import ShiftReduce.Token
import ShiftReduce.Lexer.Layout

/-!
What each kind of token may look like, said kind by kind and without a reading order: one spelling
for a kind without text, a class of texts for the others. A name is any word that is no keyword,
and the minus sign belongs to two kinds, since it subtracts or negates. No unknown text and no end
of input is a lexeme.
-/

namespace ShiftReduce

/-- A run of digits. -/
def IsNumber (digits : List Char) : Prop := digits ≠ [] ∧ ∀ c ∈ digits, c.isDigit

/-- The texts that a kind of token may be read from. -/
inductive Lexeme : Terminal → List Char → Prop where
  | spelled {kind : Terminal} {word : String} (spelling : kind.spelling = some word) :
      Lexeme kind word.toList
  | dataType {word : String} (mem : word ∈ ["int", "float", "bool", "string"]) :
      Lexeme .dataType word.toList
  | compareOp {word : String} (mem : word ∈ ["==", "!=", "<", "<=", ">", ">="]) :
      Lexeme .compareOp word.toList
  | addOp {word : String} (mem : word ∈ ["+", "-"]) : Lexeme .addOp word.toList
  | mulOp {word : String} (mem : word ∈ ["*", "/", "%"]) : Lexeme .mulOp word.toList
  | truth {word : String} (mem : word ∈ ["true", "false"]) : Lexeme .literal word.toList
  | whole {digits : List Char} (isNumber : IsNumber digits) : Lexeme .literal digits
  | fraction {digits decimals : List Char} (isNumber : IsNumber digits)
      (isFraction : IsNumber decimals) : Lexeme .literal (digits ++ '.' :: decimals)
  | quoted {body : List Char} (isLine : IsLine body) (unquoted : '"' ∉ body) :
      Lexeme .literal ('"' :: body ++ ['"'])
  | ident {first : Char} {word : List Char} (start : isWordStart first)
      (all : ∀ c ∈ word, isWordPart c) (free : first :: word ∉ keywords.map Prod.fst) :
      Lexeme .ident (first :: word)

/-- Whether a token has a text exactly when its kind carries one, and looks like its kind. -/
def Token.WellSpelled (token : Token) : Prop :=
  token.text.isSome = token.kind.carriesText ∧ Lexeme token.kind token.lexeme.toList

end ShiftReduce
