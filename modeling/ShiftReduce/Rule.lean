import ShiftReduce.Symbol

/-!
Production rules. A reduction takes as many entries off the stack as the rule's arity says; the
right-hand side names the symbols for display and for the theory of derivations. In a grammar the
two agree, but a table made by hand may differ in them, and then the arity counts.
-/

namespace ShiftReduce

/-- A production rule. -/
structure Rule where
  head : Nonterminal
  arity : Nat
  body : List Symbol
  deriving DecidableEq, Repr

namespace Rule

/-- The rule whose arity is the length of its right-hand side. -/
def of (head : Nonterminal) (body : List Symbol) : Rule := ⟨head, body.length, body⟩

/-- The rule as a line of a grammar; an empty right-hand side is written ε. -/
def render (rule : Rule) : String :=
  match rule.body with
  | [] => rule.head.name ++ " → ε"
  | body => rule.head.name ++ " →" ++ String.join (body.map fun symbol => " " ++ symbol.name)

end Rule

end ShiftReduce
