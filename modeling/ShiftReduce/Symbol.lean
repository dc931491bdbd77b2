/-!
The grammar's alphabet. Terminals are what the lexer hands out, nonterminals are what reductions
build, and both come in a fixed column order: tables print and search their columns in that
order, so it is part of what a reader of an error message sees (the order of the expected
terminals). A terminal either has one spelling in program text or stands for a class of lexemes;
only the latter carry their text along.
-/

namespace ShiftReduce

/-- The kinds of token, in column order. -/
inductive Terminal where
  | prog | ident | colon | smile | done | dataType | set | assign | ifWord | elseWord | whileWord
  | leftParen | rightParen | orOp | andOp | compareOp | addOp | mulOp | literal | notOp | minus
  | semicolon | endOfInput | unknown
  deriving DecidableEq, Repr, Inhabited

/-- What a reduction can produce, in column order. -/
inductive Nonterminal where
  | program | block | statement | declaration | assignment | conditional | alternative | loop
  | disjunction | conjunction | comparison | sum | product | factor
  deriving DecidableEq, Repr, Inhabited

/-- A place on a rule's right-hand side, or the label of a tree node. -/
inductive Symbol where
  | terminal (kind : Terminal)
  | nonterminal (kind : Nonterminal)
  deriving DecidableEq, Repr

namespace Terminal

/-- Every terminal once, in column order. -/
def all : List Terminal :=
  [.prog, .ident, .colon, .smile, .done, .dataType, .set, .assign, .ifWord, .elseWord, .whileWord,
    .leftParen, .rightParen, .orOp, .andOp, .compareOp, .addOp, .mulOp, .literal, .notOp, .minus,
    .semicolon, .endOfInput, .unknown]

/-- The name under which messages and tables show a terminal. -/
def name : Terminal → String
  | .prog => "prog"
  | .ident => "id"
  | .colon => ":"
  | .smile => ":)"
  | .done => "done"
  | .dataType => "data_type"
  | .set => "set"
  | .assign => "="
  | .ifWord => "if"
  | .elseWord => "else"
  | .whileWord => "while"
  | .leftParen => "("
  | .rightParen => ")"
  | .orOp => "l_log_op"
  | .andOp => "h_log_op"
  | .compareOp => "bool_op"
  | .addOp => "expr_op"
  | .mulOp => "term_op"
  | .literal => "literal"
  | .notOp => "!"
  | .minus => "-"
  | .semicolon => ";"
  | .endOfInput => "EOF"
  | .unknown => "error"

/-- Whether tokens of this kind keep their lexeme: the classes with more than one spelling do. -/
def carriesText : Terminal → Bool
  | .ident | .dataType | .compareOp | .addOp | .mulOp | .literal | .unknown => true
  | _ => false

/-- The one spelling of a kind whose tokens carry no text; the end of input has none. -/
def spelling : Terminal → Option String
  | .prog => some "prog"
  | .colon => some ":"
  | .smile => some ":)"
  | .done => some "done"
  | .set => some "set"
  | .assign => some "="
  | .ifWord => some "if"
  | .elseWord => some "else"
  | .whileWord => some "while"
  | .leftParen => some "("
  | .rightParen => some ")"
  | .orOp => some "||"
  | .andOp => some "&&"
  | .notOp => some "!"
  | .minus => some "-"
  | .semicolon => some ";"
  | _ => none

theorem mem_all (kind : Terminal) : kind ∈ all := by
  cases kind <;> decide

/-- A kind either has one spelling or carries its text, and the end of input does neither. -/
theorem spelling_isSome (kind : Terminal) :
    kind.spelling.isSome = (!kind.carriesText && decide (kind ≠ .endOfInput)) := by
  cases kind <;> rfl

end Terminal

namespace Nonterminal

/-- Every nonterminal once, in column order. -/
def all : List Nonterminal :=
  [.program, .block, .statement, .declaration, .assignment, .conditional, .alternative, .loop,
    .disjunction, .conjunction, .comparison, .sum, .product, .factor]

/-- The name under which trees and tables show a nonterminal. -/
def name : Nonterminal → String
  | .program => "PROG"
  | .block => "BLOCK"
  | .statement => "STMT"
  | .declaration => "DECL"
  | .assignment => "ASSIGN"
  | .conditional => "IF_ELSE"
  | .alternative => "ELSE"
  | .loop => "WHILE"
  | .disjunction => "L_LOG_E"
  | .conjunction => "H_LOG_E"
  | .comparison => "BOOL_E"
  | .sum => "E"
  | .product => "T"
  | .factor => "F"

theorem mem_all (kind : Nonterminal) : kind ∈ all := by
  cases kind <;> decide

end Nonterminal

/-- The name under which rules and trees show a symbol. -/
def Symbol.name : Symbol → String
  | .terminal kind => kind.name
  | .nonterminal kind => kind.name

end ShiftReduce
