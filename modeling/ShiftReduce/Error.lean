import ShiftReduce.Token

/-!
What can go wrong in a parse. An unexpected token is the program's fault and is reported with
what could have stood in its place. A fault is the table's: it can only arise from a table whose
rows and rules do not fit together. A session that has ended answers every further request with
the third kind of error. Each error keeps its cause, and the wording is a function of it.
-/

namespace ShiftReduce

/-- A contradiction between a table's entries, noticed while running it. -/
inductive Fault where
  | stackUnderflow (needed available : Nat)
  | missingSubtree (state : Nat)
  | missingGoto (state : Nat) (kind : Nonterminal)
  | unknownRule (rule : Nat)
  | malformedAccept (entries : Nat)
  deriving DecidableEq, Repr

/-- The wording of a fault. -/
def Fault.message : Fault → String
  | .stackUnderflow needed available =>
    "stack underflow: reduction needs " ++ Nat.repr needed ++ " entries, " ++
      Nat.repr available ++ " available"
  | .missingSubtree state => "stack entry for state " ++ Nat.repr state ++ " holds no subtree"
  | .missingGoto state kind => "no goto entry for state " ++ Nat.repr state ++ " and " ++ kind.name
  | .unknownRule rule => "unknown production rule " ++ Nat.repr rule
  | .malformedAccept entries =>
    "accept with " ++ Nat.repr entries ++ " entries above the start entry, expected 1"

/-- Which part of the front end a report comes from. -/
inductive Category where
  | lexer | parser | internal
  deriving DecidableEq, Repr

/-- The name under which reports show a category. -/
def Category.name : Category → String
  | .lexer => "Lexer"
  | .parser => "Parser"
  | .internal => "Internal"

/-- Why a step did not succeed. -/
inductive ParseError where
  | unexpected (token : Token) (expected : List Terminal)
  | internal (fault : Fault)
  | finished
  deriving DecidableEq, Repr

namespace ParseError

/-- What went wrong, without its place. -/
def message : ParseError → String
  | .unexpected token [] => "Unexpected token " ++ token.describe
  | .unexpected token expected =>
    "Unexpected token " ++ token.describe ++ ", expected one of: " ++
      String.intercalate ", " (expected.map Terminal.name)
  | .internal fault => "Internal error: " ++ fault.message
  | .finished => "parse session already finished"

/-- The line an error points at: only an unexpected token has one. -/
def line? : ParseError → Option Nat
  | .unexpected token _ => some token.line
  | _ => none

/-- Who reports an error: the parser blames the program, anything else is internal. -/
def category : ParseError → Category
  | .unexpected _ _ => .parser
  | _ => .internal

/-- The fault behind an internal error. -/
def fault? : ParseError → Option Fault
  | .internal fault => some fault
  | _ => none

/-- The message with its place, where it has one. -/
def describe (error : ParseError) : String :=
  match error.line? with
  | some line => "Parse error on line " ++ Nat.repr line ++ ": " ++ error.message
  | none => "Parse error: " ++ error.message

end ParseError

end ShiftReduce
