import ShiftReduce.Proofs.Completable
import ShiftReduce.Proofs.Completeness
import ShiftReduce.Language.States

/-!
The items of the language's automaton, and what its sentences begin with and are followed by. The
rows agree with the items in both directions: whatever a row does an item stands behind, and every
item leads on. The checks go through the rows once and for all.
-/

namespace ShiftReduce

/-! ### Checks over all symbols -/

instance {P : Terminal → Prop} [DecidablePred P] : Decidable (∀ kind, P kind) :=
  decidable_of_iff (∀ kind ∈ Terminal.all, P kind)
    ⟨fun h kind => h kind kind.mem_all, fun h kind _ => h kind⟩

instance {P : Nonterminal → Prop} [DecidablePred P] : Decidable (∀ kind, P kind) :=
  decidable_of_iff (∀ kind ∈ Nonterminal.all, P kind)
    ⟨fun h kind => h kind kind.mem_all, fun h kind _ => h kind⟩

instance {P : Symbol → Prop} [DecidablePred P] : Decidable (∀ symbol, P symbol) :=
  decidable_of_iff ((∀ kind, P (.terminal kind)) ∧ ∀ kind, P (.nonterminal kind))
    ⟨fun h symbol => match symbol with
      | .terminal kind => h.1 kind
      | .nonterminal kind => h.2 kind,
    fun h => ⟨fun _ => h _, fun _ => h _⟩⟩

namespace Language

/-- The kernels by state, five to a line. The start state has none, and neither has the state behind
a program, which no rule of the grammar mentions. -/
def kernels : List (List Item) := [
  -- the frame of a program
  [], [⟨0, 1⟩], [], [⟨0, 2⟩], [⟨0, 3⟩],
  -- 5: statements, up to the first expression
  [⟨2, 1⟩], [⟨7, 1⟩], [⟨8, 1⟩], [⟨9, 1⟩], [⟨12, 1⟩],
  [⟨0, 4⟩], [⟨1, 1⟩], [⟨3, 1⟩], [⟨4, 1⟩], [⟨5, 1⟩],
  [⟨6, 1⟩], [⟨7, 2⟩], [⟨8, 2⟩], [⟨9, 2⟩], [⟨12, 2⟩],
  [⟨0, 5⟩], [⟨1, 2⟩], [⟨7, 3⟩], [⟨8, 3⟩], [⟨23, 1⟩],
  -- 25: operands
  [⟨25, 1⟩], [⟨24, 1⟩], [⟨26, 1⟩], [⟨27, 1⟩], [⟨9, 3⟩, ⟨13, 1⟩],
  -- 30: the first operand of each level
  [⟨14, 1⟩, ⟨15, 1⟩], [⟨16, 1⟩, ⟨17, 1⟩], [⟨18, 1⟩, ⟨19, 1⟩], [⟨20, 1⟩, ⟨21, 1⟩], [⟨22, 1⟩],
  -- 35: complete disjunctions
  [⟨12, 3⟩, ⟨13, 1⟩], [⟨8, 4⟩, ⟨13, 1⟩], [⟨13, 1⟩, ⟨25, 2⟩], [⟨26, 2⟩], [⟨27, 2⟩],
  -- 40: the right operand of each level
  [⟨9, 4⟩], [⟨13, 2⟩], [⟨15, 2⟩], [⟨17, 2⟩], [⟨19, 2⟩],
  [⟨21, 2⟩], [⟨12, 4⟩], [⟨8, 5⟩], [⟨25, 3⟩], [⟨9, 5⟩],
  -- 50: both operands of each level
  [⟨13, 3⟩, ⟨15, 1⟩], [⟨15, 3⟩, ⟨17, 1⟩], [⟨17, 3⟩, ⟨19, 1⟩], [⟨19, 3⟩, ⟨21, 1⟩], [⟨21, 3⟩],
  -- 55: bodies of conditionals and loops
  [⟨12, 5⟩], [⟨9, 6⟩], [⟨12, 6⟩], [⟨10, 1⟩], [⟨9, 7⟩],
  [⟨10, 2⟩], [⟨10, 3⟩]]

/-- The kernel of a state. -/
def kernel (state : Nat) : List Item := (kernels[state]?).getD []

theorem length_kernels : kernels.length = rows.length := rfl

theorem lt_of_mem_kernel {state : Nat} {item : Item} (mem : item ∈ kernel state) :
    state < rows.length := by
  refine Nat.lt_of_not_le fun hge => ?_
  rw [← length_kernels] at hge
  rw [kernel, List.getElem?_eq_none hge] at mem
  cases mem

theorem dot_pos : ∀ state, ∀ item ∈ kernel state, 0 < item.dot := by
  have hall : ∀ items ∈ kernels, ∀ item ∈ items, 0 < item.dot := by decide
  intro state item mem
  rw [kernel] at mem
  cases hitems : kernels[state]? with
  | none =>
    rw [hitems] at mem
    cases mem
  | some items =>
    rw [hitems] at mem
    exact hall items (List.mem_of_getElem? hitems) item mem

/-- Every entry that leads on to a state leads there from the items its kernel came from. -/
theorem edge_check : ∀ state < rows.length, ∀ symbol, ∀ next ∈ table.next? state symbol,
    next ≠ 0 ∧ (next = 2 → state = 0 ∧ symbol = .nonterminal .program) ∧
      ∀ item ∈ kernel next,
        (∃ rule ∈ table.rule? item.rule, rule.body[item.dot - 1]? = some symbol) ∧
          Item.Holds table kernel state ⟨item.rule, item.dot - 1⟩ := by
  decide +kernel

/-- Every reduction is by a rule whose dot has passed all of its right-hand side. -/
theorem reduce_check : ∀ state < rows.length, ∀ kind,
    ∀ index ∈ (table.action state kind).reduce?,
      ∃ rule ∈ table.rule? index, Item.Holds table kernel state ⟨index, rule.body.length⟩ := by
  decide +kernel

theorem accept_check : ∀ state < rows.length, ∀ kind, table.action state kind = .accept →
    kind = .endOfInput ∧ state = 2 := by
  decide +kernel

theorem annotated : Annotated table kernel .program 2 where
  arity_eq := arity_eq_length
  kernel_start := rfl
  dot_pos := dot_pos
  start_apart state symbol h :=
    (edge_check state (Table.lt_of_next? h) symbol 0 h).1 rfl
  came state symbol next h :=
    (edge_check state (Table.lt_of_next? h) symbol next h).2.2
  reduces state kind index h :=
    reduce_check state (Table.lt_of_action fun herror => by rw [herror] at h; cases h) kind index h
  accepts state kind h :=
    accept_check state (Table.lt_of_action (by rw [h]; exact nofun)) kind h
  final_ne := nofun
  into_final state symbol h :=
    (edge_check state (Table.lt_of_next? h) symbol 2 h).2.1 rfl

/-! ### Completions -/

/-- How many rules lie one above the other in a shallowest derivation. -/
def height : Nonterminal → Nat
  | .block | .declaration | .alternative | .factor => 0
  | .program | .statement | .product => 1
  | .sum => 2
  | .comparison => 3
  | .conjunction => 4
  | .disjunction => 5
  | .assignment | .conditional | .loop => 6

/-- Rules begin with their own head or with a nonterminal of a later column. -/
def rank (kind : Nonterminal) : Nat := Nonterminal.all.idxOf kind

/-- Every goto entry has an item that expects it, and only the final state has no moved item. -/
theorem goto_check : ∀ state < rows.length, ∀ kind, (table.goto? state kind).isSome →
    state = 0 ∧ kind = .program ∨
      ∃ item ∈ kernel state ++ (List.range rules.length).map fun index => ⟨index, 0⟩,
        Item.Holds table kernel state item ∧ item.Expects table rank kind := by
  decide +kernel

theorem moved_check : ∀ state < rows.length, ∀ symbol, ∀ next ∈ table.next? state symbol,
    next = 2 ∨ kernel next ≠ [] := by
  decide +kernel

theorem completable : Completable table kernel .program 2 height rank where
  annotated := annotated
  derives := by decide +kernel
  expects state kind h := by
    rcases goto_check state (Table.lt_of_goto h) kind h with hstart | ⟨item, -, hitem⟩
    · exact Or.inl hstart
    · exact Or.inr ⟨item, hitem⟩
  moved state symbol next h := moved_check state (Table.lt_of_next? h) symbol next h

/-! ### Lookaheads -/

/-- What sentences begin with and what can follow them. -/
def lookahead : Lookahead where
  first
    | .program => [some .prog]
    | .block => blockStarts.map fun entry => some entry.1
    | .statement => [some .dataType, some .set, some .ifWord, some .whileWord]
    | .declaration => [some .dataType]
    | .assignment => [some .set]
    | .conditional => [some .ifWord]
    | .alternative => [some .elseWord, none]
    | .loop => [some .whileWord]
    | .disjunction | .conjunction | .comparison | .sum | .product | .factor =>
      operandStarts.map fun entry => some entry.1
  follow
    | .program => [.endOfInput]
    | .block => afterBlock
    | .statement | .declaration | .assignment | .conditional | .alternative | .loop =>
      afterStatement
    | .disjunction => afterDisjunction
    | .conjunction => afterConjunction
    | .comparison => afterComparison
    | .sum => afterSum
    | .product | .factor => afterProduct

theorem covers : lookahead.Covers rules where
  first_mem := by decide +kernel
  follow_mem := by decide +kernel

theorem leads_on_check : ∀ state < rows.length,
    (∀ item ∈ kernel state, item.LeadsOn table kernel lookahead state) ∧
      ∀ index < rules.length, table.opens state index = true →
        Item.LeadsOn table kernel lookahead state ⟨index, 0⟩ := by
  decide +kernel

theorem complete : Complete table kernel lookahead where
  arity_eq := arity_eq_length
  covers := covers
  leads_on state item holds := by
    rcases holds with hkernel | ⟨hdot, hopens⟩
    · exact (leads_on_check state (lt_of_mem_kernel hkernel)).1 item hkernel
    · obtain ⟨rule, hlookup, hgoto⟩ := Table.rule_of_opens hopens
      obtain ⟨hlt, -⟩ := List.getElem?_eq_some_iff.mp hlookup
      obtain ⟨index, dot⟩ := item
      obtain rfl : dot = 0 := hdot
      exact (leads_on_check state (Table.lt_of_goto hgoto)).2 index hlt hopens

end Language

end ShiftReduce
