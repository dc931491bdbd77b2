import ShiftReduce.Table.Basic
import ShiftReduce.Language.Rules

/-!
The LALR(1) automaton of the grammar, augmented by a start rule that wants the end of input after
a program. State 0 is the start, and the position of a row in the list is its state. Rows repeat a
few shapes, named here once: before a block a row shifts what can begin one, before an operand what
can begin that, and a completed right-hand side reduces on the terminals that can follow it.
-/

namespace ShiftReduce.Language

open Terminal Nonterminal

/-- Reductions by one rule on each of the given lookaheads. -/
def reduceOn (kinds : List Terminal) (rule : Nat) : List (Terminal × Action) :=
  kinds.map fun kind => (kind, .reduce rule)

/-- Shifts on whatever can begin a block. -/
def blockStarts : List (Terminal × Action) :=
  [(done, .shift 5), (dataType, .shift 6), (set, .shift 7), (ifWord, .shift 8),
    (whileWord, .shift 9)]

/-- Where the statements at the front of a block lead. -/
def statementGotos : List (Nonterminal × Nat) :=
  [(statement, 11), (declaration, 12), (assignment, 13), (conditional, 14), (loop, 15)]

/-- Shifts on whatever can begin an operand. -/
def operandStarts : List (Terminal × Action) :=
  [(ident, .shift 24), (leftParen, .shift 25), (literal, .shift 26), (notOp, .shift 27),
    (minus, .shift 28)]

/-- What can follow a statement: the rest of its block. -/
def afterStatement : List Terminal := [done, dataType, set, ifWord, whileWord]

/-- What can follow a block: the end of the program, an alternative, or a further statement. -/
def afterBlock : List Terminal := [smile, done, dataType, set, ifWord, elseWord, whileWord]

/-- What can follow a disjunction that is complete. -/
def afterDisjunction : List Terminal := [rightParen, orOp, semicolon]

/-- What can follow a complete conjunction, and so on level by level. -/
def afterConjunction : List Terminal := andOp :: afterDisjunction

def afterComparison : List Terminal := compareOp :: afterConjunction

def afterSum : List Terminal := addOp :: afterComparison

/-- What can follow a complete operand. -/
def afterProduct : List Terminal := mulOp :: afterSum

/-- A state that only shifts one terminal. -/
def shiftRow (kind : Terminal) (state : Nat) : Row := ⟨[(kind, .shift state)], []⟩

/-- A state that only reduces, by one rule. -/
def reduceRow (kinds : List Terminal) (rule : Nat) : Row := ⟨reduceOn kinds rule, []⟩

/-- A state in front of a block, which leads to `state`. -/
def blockRow (state : Nat) : Row := ⟨blockStarts, (block, state) :: statementGotos⟩

/-- A state in front of an operand, with the state each level of expression leads to. -/
def operandRow (gotos : List (Nonterminal × Nat)) : Row := ⟨operandStarts, gotos⟩

/-- A state behind a complete operand of one level: another operator of the level is shifted to
`state`, anything looser reduces. -/
def operatorRow (operator : Terminal) (state : Nat) (looser : List Terminal) (rule : Nat) : Row :=
  ⟨(operator, .shift state) :: reduceOn looser rule, []⟩

/-- Where a factor leads as the first operand of its product, and so on level by level. -/
def factorGotos : List (Nonterminal × Nat) := [(factor, 34)]

def productGotos : List (Nonterminal × Nat) := (product, 33) :: factorGotos

def sumGotos : List (Nonterminal × Nat) := (sum, 32) :: productGotos

def comparisonGotos : List (Nonterminal × Nat) := (comparison, 31) :: sumGotos

def conjunctionGotos : List (Nonterminal × Nat) := (conjunction, 30) :: comparisonGotos

/-- The states by number. -/
def rows : List Row := [
  -- the frame of a program
  ⟨[(prog, .shift 1)], [(program, 2)]⟩,
  shiftRow ident 3,
  ⟨[(endOfInput, .accept)], []⟩,
  shiftRow colon 4,
  blockRow 10,
  -- 5: statements, up to the first expression
  reduceRow afterBlock 2,
  shiftRow ident 16,
  shiftRow ident 17,
  shiftRow leftParen 18,
  shiftRow leftParen 19,
  -- 10
  shiftRow smile 20,
  blockRow 21,
  reduceRow afterStatement 3,
  reduceRow afterStatement 4,
  reduceRow afterStatement 5,
  -- 15
  reduceRow afterStatement 6,
  shiftRow semicolon 22,
  shiftRow assign 23,
  operandRow ((disjunction, 29) :: conjunctionGotos),
  operandRow ((disjunction, 35) :: conjunctionGotos),
  -- 20
  reduceRow [endOfInput] 0,
  reduceRow afterBlock 1,
  reduceRow afterStatement 7,
  operandRow ((disjunction, 36) :: conjunctionGotos),
  reduceRow afterProduct 23,
  -- 25: operands
  operandRow ((disjunction, 37) :: conjunctionGotos),
  reduceRow afterProduct 24,
  operandRow [(factor, 38)],
  operandRow [(factor, 39)],
  ⟨[(rightParen, .shift 40), (orOp, .shift 41)], []⟩,
  -- 30: the first operand of each level
  operatorRow andOp 42 afterDisjunction 14,
  operatorRow compareOp 43 afterConjunction 16,
  operatorRow addOp 44 afterComparison 18,
  operatorRow mulOp 45 afterSum 20,
  reduceRow afterProduct 22,
  -- 35: complete disjunctions
  ⟨[(rightParen, .shift 46), (orOp, .shift 41)], []⟩,
  ⟨[(orOp, .shift 41), (semicolon, .shift 47)], []⟩,
  ⟨[(rightParen, .shift 48), (orOp, .shift 41)], []⟩,
  reduceRow afterProduct 26,
  reduceRow afterProduct 27,
  -- 40: the right operand of each level
  shiftRow colon 49,
  operandRow ((conjunction, 50) :: comparisonGotos),
  operandRow ((comparison, 51) :: sumGotos),
  operandRow ((sum, 52) :: productGotos),
  operandRow ((product, 53) :: factorGotos),
  -- 45
  operandRow [(factor, 54)],
  shiftRow colon 55,
  reduceRow afterStatement 8,
  reduceRow afterProduct 25,
  blockRow 56,
  -- 50: both operands of each level
  operatorRow andOp 42 afterDisjunction 13,
  operatorRow compareOp 43 afterConjunction 15,
  operatorRow addOp 44 afterComparison 17,
  operatorRow mulOp 45 afterSum 19,
  reduceRow afterProduct 21,
  -- 55: bodies of conditionals and loops
  blockRow 57,
  ⟨(elseWord, .shift 58) :: reduceOn afterStatement 11, [(alternative, 59)]⟩,
  reduceRow afterStatement 12,
  shiftRow colon 60,
  reduceRow afterStatement 9,
  -- 60
  blockRow 61,
  reduceRow afterStatement 10]

/-- The parse table of the language. -/
def table : Table := ⟨rules, rows⟩

end ShiftReduce.Language
