import ShiftReduce.Rule

/-!
The grammar of the language: a program is a named block between its opening word and a smile, a
block a list of statements closed by its last word, and expressions climb five levels of binary
operators, all of them left associative. The position of a rule in the list is its number.
-/

namespace ShiftReduce.Language

open Terminal Nonterminal

private abbrev t : Terminal → Symbol := .terminal

private abbrev n : Nonterminal → Symbol := .nonterminal

/-- The rules by number. -/
def rules : List Rule := [
  .of program [t prog, t ident, t colon, n block, t smile],
  .of block [n statement, n block],
  .of block [t done],
  .of statement [n declaration],
  .of statement [n assignment],
  .of statement [n conditional],
  .of statement [n loop],
  .of declaration [t dataType, t ident, t semicolon],
  .of assignment [t set, t ident, t assign, n disjunction, t semicolon],
  .of conditional
    [t ifWord, t leftParen, n disjunction, t rightParen, t colon, n block, n alternative],
  .of alternative [t elseWord, t colon, n block],
  .of alternative [],
  .of loop [t whileWord, t leftParen, n disjunction, t rightParen, t colon, n block],
  .of disjunction [n disjunction, t orOp, n conjunction],
  .of disjunction [n conjunction],
  .of conjunction [n conjunction, t andOp, n comparison],
  .of conjunction [n comparison],
  .of comparison [n comparison, t compareOp, n sum],
  .of comparison [n sum],
  .of sum [n sum, t addOp, n product],
  .of sum [n product],
  .of product [n product, t mulOp, n factor],
  .of product [n factor],
  .of factor [t ident],
  .of factor [t literal],
  .of factor [t leftParen, n disjunction, t rightParen],
  .of factor [t notOp, n factor],
  .of factor [t minus, n factor]]

/-- In the grammar the arity is the length of the right-hand side. -/
theorem arity_eq_length : ∀ rule ∈ rules, rule.arity = rule.body.length := by decide

end ShiftReduce.Language
