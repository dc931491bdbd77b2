import ShiftReduce.Symbol

/-!
The words and operators of the language. A word is a keyword only as a whole, so looking it up
decides its kind; an operator is the longest one that the text goes on with. A lone minus sign is
an operator of its own here, because whether it subtracts or negates depends on the token before
it.
-/

namespace ShiftReduce

/-- A layout character that ends no line. -/
def isBlank (c : Char) : Bool := c == ' ' || c == '\t' || c == '\r' || c == '\x0c'

/-- Letters are the ASCII ones. -/
def isWordStart (c : Char) : Bool := c.isAlpha || c == '_'

/-- Behind its first character a word may also hold digits. -/
def isWordPart (c : Char) : Bool := c.isAlphanum || c == '_'

/-- The words with a meaning of their own. -/
def keywords : List (List Char × Terminal) :=
  [("prog".toList, .prog), ("done".toList, .done), ("set".toList, .set), ("if".toList, .ifWord),
    ("else".toList, .elseWord), ("while".toList, .whileWord), ("int".toList, .dataType),
    ("float".toList, .dataType), ("bool".toList, .dataType), ("string".toList, .dataType),
    ("true".toList, .literal), ("false".toList, .literal)]

/-- The kind of a whole word. -/
def wordKind (word : List Char) : Terminal := (keywords.lookup word).getD .ident

/-- The operators of two characters. -/
def longOperators : List (List Char × Terminal) :=
  [(":)".toList, .smile), ("||".toList, .orOp), ("&&".toList, .andOp), ("==".toList, .compareOp),
    ("!=".toList, .compareOp), ("<=".toList, .compareOp), (">=".toList, .compareOp)]

/-- The operators of one character, but for the minus sign. -/
def shortOperators : List (Char × Terminal) :=
  [(':', .colon), ('=', .assign), ('(', .leftParen), (')', .rightParen), ('<', .compareOp),
    ('>', .compareOp), ('+', .addOp), ('*', .mulOp), ('/', .mulOp), ('%', .mulOp), ('!', .notOp),
    (';', .semicolon)]

/-- Whether a minus sign after this token subtracts: it does where an operand has just ended. -/
def endsOperand : Terminal → Bool
  | .ident | .literal | .rightParen => true
  | _ => false

/-- The kind of a minus sign, given the kind of the token before it. -/
def dashKind (previous : Option Terminal) : Terminal :=
  if previous.any endsOperand then .addOp else .minus

/-! ### The tables agree with the fixed spellings -/

theorem spelling_of_mem_keywords : ∀ entry ∈ keywords,
    entry.2.carriesText ∨ entry.2.spelling = some (String.ofList entry.1) := by decide

theorem spelling_of_mem_longOperators : ∀ entry ∈ longOperators,
    entry.2.carriesText ∨ entry.2.spelling = some (String.ofList entry.1) := by decide

theorem spelling_of_mem_shortOperators : ∀ entry ∈ shortOperators,
    entry.2.carriesText ∨ entry.2.spelling = some (String.ofList [entry.1]) := by decide

end ShiftReduce
