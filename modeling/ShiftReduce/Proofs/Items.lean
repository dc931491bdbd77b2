import ShiftReduce.Proofs.Linked

/-!
Items of an automaton's states. An item is a rule with a dot in its right-hand side: what stands
before the dot has been read and lies on the stack. The kernel of a state lists the items whose
dot has moved; with them hold the unmoved items of all rules for what the state has a goto for.
A table is annotated when its entries agree with its kernels. On a linked stack an item that
holds in the top state then tells what the topmost trees are, so reductions never find anything
else than the right-hand side of their rule, and no fault can arise.
-/

namespace ShiftReduce

/-- A rule, by number, with a dot before the symbol at a position of its right-hand side. -/
structure Item where
  rule : Nat
  dot : Nat
  deriving DecidableEq, Repr

/-- The rule by which an action reduces. -/
def Action.reduce? : Action → Option Nat
  | .reduce index => some index
  | _ => none

/-- Whether a state goes over what the rule of that number builds. -/
def Table.opens (table : Table) (state index : Nat) : Bool :=
  match table.rule? index with
  | none => false
  | some rule => (table.goto? state rule.head).isSome

theorem Table.rule_of_opens {table : Table} {state index : Nat}
    (h : table.opens state index = true) :
    ∃ rule, table.rule? index = some rule ∧ (table.goto? state rule.head).isSome := by
  rw [opens] at h
  split at h
  · cases h
  · rename_i rule hlookup
    exact ⟨rule, hlookup, h⟩

/-- The items of a state: those of its kernel, and unmoved ones of rules it opens. -/
def Item.Holds (table : Table) (kernel : Nat → List Item) (state : Nat) (item : Item) : Prop :=
  item ∈ kernel state ∨ item.dot = 0 ∧ table.opens state item.rule = true
  deriving Decidable

/-- A table whose entries agree with the items of its kernels. The stack of a program that has
been read is state `final` above the start, with a tree of `goal`. -/
structure Annotated (table : Table) (kernel : Nat → List Item) (goal : Nonterminal)
    (final : Nat) : Prop where
  arity_eq : ∀ rule ∈ table.rules, rule.arity = rule.body.length
  kernel_start : kernel 0 = []
  dot_pos : ∀ state, ∀ item ∈ kernel state, 0 < item.dot
  start_apart : ∀ state symbol, table.next? state symbol ≠ some 0
  came : ∀ state symbol next, table.next? state symbol = some next → ∀ item ∈ kernel next,
    (∃ rule ∈ table.rule? item.rule, rule.body[item.dot - 1]? = some symbol) ∧
      Item.Holds table kernel state ⟨item.rule, item.dot - 1⟩
  reduces : ∀ state kind, ∀ index ∈ (table.action state kind).reduce?,
    ∃ rule ∈ table.rule? index, Item.Holds table kernel state ⟨index, rule.body.length⟩
  accepts : ∀ state kind, table.action state kind = .accept →
    kind = .endOfInput ∧ state = final
  final_ne : final ≠ 0
  into_final : ∀ state symbol, table.next? state symbol = some final →
    state = 0 ∧ symbol = .nonterminal goal

namespace Annotated

variable {table : Table} {kernel : Nat → List Item} {goal : Nonterminal} {final : Nat}

/-- Only the empty stack is in the start state. -/
theorem above_eq_nil (annotated : Annotated table kernel goal final) {above : List StackEntry}
    (linked : Linked table above) (start : (Stack.mk above).topState = 0) : above = [] := by
  cases linked with
  | nil => rfl
  | cons rest edge =>
    obtain rfl : _ = 0 := start
    exact absurd edge (annotated.start_apart _ _)

/-- The trees that an item's dot has passed lie on top of the stack, and below them the item was
unmoved. -/
theorem pops_passed (annotated : Annotated table kernel goal final) {index : Nat} {rule : Rule}
    (lookup : table.rule? index = some rule) :
    ∀ {dot : Nat} {above : List StackEntry}, Linked table above →
      Item.Holds table kernel (Stack.mk above).topState ⟨index, dot⟩ →
      ∃ children below, (Stack.mk above).popMany dot = (.ok children, below) ∧
        children.map ParseTree.symbol = rule.body.take dot ∧ Linked table below.above ∧
        table.opens below.topState index = true
  | 0, above, linked, holds => by
    refine ⟨[], ⟨above⟩, Stack.popMany_zero _, rfl, linked, ?_⟩
    rcases holds with hkernel | ⟨-, hopens⟩
    · exact absurd (annotated.dot_pos _ _ hkernel) (Nat.lt_irrefl 0)
    · exact hopens
  | dot + 1, above, linked, holds => by
    have hkernel : ⟨index, dot + 1⟩ ∈ kernel (Stack.mk above).topState :=
      holds.resolve_right fun h => Nat.succ_ne_zero dot h.1
    cases linked with
    | nil =>
      have hempty : (⟨index, dot + 1⟩ : Item) ∈ kernel 0 := hkernel
      rw [annotated.kernel_start] at hempty
      cases hempty
    | @cons under state tree rest edge =>
      obtain ⟨⟨found, hfound, hsymbol⟩, hbefore⟩ := annotated.came _ _ _ edge _ hkernel
      obtain rfl := Option.some.inj (lookup.symm.trans hfound)
      obtain ⟨children, below, hpops, hspells, hlinked, hopens⟩ :=
        annotated.pops_passed lookup rest hbefore
      refine ⟨children ++ [tree], below, Stack.popMany_push state tree hpops, ?_, hlinked, hopens⟩
      have hat : rule.body[dot]? = some tree.symbol := hsymbol
      rw [List.map_append, hspells, List.take_add_one, hat]
      rfl

/-- A reduction finds the right-hand side of its rule on the stack, and its goto entry below. -/
theorem reduce_succeeds (annotated : Annotated table kernel goal final) {stack : Stack}
    (linked : Linked table stack.above) {kind : Terminal} {index : Nat}
    (action : table.action stack.topState kind = .reduce index) :
    ∃ rule children below state, table.rule? index = some rule ∧
      stack.popMany rule.arity = (.ok children, below) ∧
      rule.body = children.map ParseTree.symbol ∧ Linked table below.above ∧
      table.goto? below.topState rule.head = some state := by
  obtain ⟨rule, hlookup, hholds⟩ :=
    annotated.reduces stack.topState kind index (by rw [action]; rfl)
  obtain ⟨children, below, hpops, hspells, hlinked, hopens⟩ :=
    annotated.pops_passed hlookup linked hholds
  obtain ⟨opened, hopened, hsome⟩ := Table.rule_of_opens hopens
  obtain rfl := Option.some.inj (hlookup.symm.trans hopened)
  obtain ⟨state, hgoto⟩ := Option.isSome_iff_exists.mp hsome
  refine ⟨rule, children, below, state, hlookup, ?_, ?_, hlinked, hgoto⟩
  · rw [annotated.arity_eq rule (List.mem_of_getElem? hlookup)]
    exact hpops
  · rw [hspells, List.take_length]

/-- The final state has one entry above the start, which holds a tree of the goal. -/
theorem final_stack (annotated : Annotated table kernel goal final) {stack : Stack}
    (linked : Linked table stack.above) (top : stack.topState = final) :
    ∃ tree, stack = .push .empty final (some tree) ∧ tree.symbol = .nonterminal goal := by
  obtain ⟨above⟩ := stack
  cases linked with
  | nil => exact absurd top.symm annotated.final_ne
  | cons rest edge =>
    obtain rfl : _ = final := top
    obtain ⟨hbelow, hsymbol⟩ := annotated.into_final _ _ edge
    obtain rfl := annotated.above_eq_nil rest hbelow
    exact ⟨_, rfl, hsymbol⟩

end Annotated

end ShiftReduce
