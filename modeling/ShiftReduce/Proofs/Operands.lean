import ShiftReduce.Proofs.Lexemes
import ShiftReduce.Tree.Derivation

/-!
Where operands end. The grammar settles the sign of every dash: an expression begins where no
operand has just ended and ends with one, and nothing else does. Passing over the symbols of a
right-hand side in this way never meets a dash of the wrong kind, and so neither does passing over
the leaves of a derivation.
-/

namespace ShiftReduce.Language

/-- Whether what the nonterminal derives ends with an operand. -/
def endsInOperand : Nonterminal → Bool
  | .disjunction | .conjunction | .comparison | .sum | .product | .factor => true
  | _ => false

/-- Whether an operand has ended behind the symbol, where the symbol can stand: a terminal where it
fits, and a nonterminal where no operand has just ended. -/
def pass (ended : Bool) : Symbol → Option Bool
  | .terminal kind => if kind.fits ended then some (endsOperand kind) else none
  | .nonterminal kind => if ended then none else some (endsInOperand kind)

theorem pass_body : ∀ rule ∈ rules,
    rule.body.foldlM pass false = some (endsInOperand rule.head) := by decide

/-- Passing over terminals tells that each fits, and what has ended behind it. -/
theorem pass_terminal_cons {kind : Terminal} {kinds : List Terminal} {ended result : Bool}
    (passes : ((kind :: kinds).map Symbol.terminal).foldlM pass ended = some result) :
    kind.fits ended = true ∧
      (kinds.map Symbol.terminal).foldlM pass (endsOperand kind) = some result := by
  rw [List.map_cons, List.foldlM_cons] at passes
  obtain ⟨between, hfirst, hrest⟩ := Option.bind_eq_some_iff.mp passes
  rw [pass] at hfirst
  obtain ⟨hfits, hbetween⟩ := Option.ite_none_right_eq_some.mp hfirst
  obtain rfl := Option.some.inj hbetween
  exact ⟨hfits, hrest⟩

/-- What passes over a symbol passes over the leaves below it. -/
def PassesBelow (tree : ParseTree) : Prop :=
  ∀ {ended result : Bool}, pass ended tree.symbol = some result →
    (tree.kinds.map Symbol.terminal).foldlM pass ended = some result

theorem pass_children : ∀ {trees : List ParseTree}, (∀ tree ∈ trees, PassesBelow tree) →
    ∀ {ended result : Bool}, (trees.map ParseTree.symbol).foldlM pass ended = some result →
      (((ParseTree.leavesAll trees).map Token.kind).map Symbol.terminal).foldlM pass ended =
        some result
  | [], _, _, _, h => h
  | tree :: trees, passes, ended, result, h => by
    rw [List.map_cons, List.foldlM_cons] at h
    obtain ⟨between, hfirst, hrest⟩ := Option.bind_eq_some_iff.mp h
    have htree := passes tree List.mem_cons_self hfirst
    have htrees := pass_children (fun other mem => passes other (List.mem_cons_of_mem _ mem)) hrest
    rw [ParseTree.kinds] at htree
    rw [ParseTree.leavesAll, List.map_append, List.map_append, List.foldlM_append, htree]
    exact htrees

theorem passesBelow {tree : ParseTree} (derivation : Derivation rules tree) :
    PassesBelow tree := by
  induction derivation with
  | leaf token =>
    intro ended result h
    rw [ParseTree.kinds, ParseTree.leaves, List.map_singleton, List.map_singleton,
      List.foldlM_cons]
    rw [ParseTree.symbol] at h
    rw [h]
    rfl
  | @node rule children mem spells below ih =>
    intro ended result h
    cases ended with
    | true => cases h
    | false =>
      rw [ParseTree.kinds, ParseTree.leaves]
      refine pass_children ih ?_
      rw [← spells, pass_body rule mem]
      exact h

/-- The leaves of a program are passed over. -/
theorem pass_program {tree : ParseTree} (program : IsProgramTree tree) :
    (tree.kinds.map Symbol.terminal).foldlM pass false = some false := by
  refine passesBelow program.1 ?_
  rw [program.2]
  rfl

end ShiftReduce.Language
