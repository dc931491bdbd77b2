import ShiftReduce.Proofs.Run

/-!
The stack as a path of the automaton. On a linked stack every entry above the start holds a tree,
and its state is where the entry below leads over the symbol of that tree. The empty stack is
linked, and whatever the table, shifts and reductions keep a stack linked: a reduction uncovers a
state that was pushed any time before, and pushes the one its goto entry names.
-/

namespace ShiftReduce

/-- Where a state leads over a symbol: by a shift over a terminal, by a goto over a nonterminal. -/
def Table.next? (table : Table) (state : Nat) : Symbol → Option Nat
  | .terminal kind =>
    match table.action state kind with
    | .shift next => some next
    | _ => none
  | .nonterminal kind => table.goto? state kind

theorem Table.next?_of_shift {table : Table} {state next : Nat} {kind : Terminal}
    (h : table.action state kind = .shift next) :
    table.next? state (.terminal kind) = some next := by
  rw [next?, h]

theorem Table.shift_of_next? {table : Table} {state next : Nat} {kind : Terminal}
    (h : table.next? state (.terminal kind) = some next) :
    table.action state kind = .shift next := by
  rw [next?] at h
  split at h
  · rename_i target haction
    rw [haction, Option.some.inj h]
  · cases h

theorem Table.lt_of_action {table : Table} {state : Nat} {kind : Terminal}
    (h : table.action state kind ≠ .error) : state < table.rows.length := by
  refine Nat.lt_of_not_le fun hge => ?_
  rw [action, row, List.getElem?_eq_none hge] at h
  exact h rfl

theorem Table.lt_of_goto {table : Table} {state : Nat} {kind : Nonterminal}
    (h : (table.goto? state kind).isSome) : state < table.rows.length := by
  refine Nat.lt_of_not_le fun hge => ?_
  rw [goto?, row, List.getElem?_eq_none hge] at h
  cases h

theorem Table.lt_of_next? {table : Table} {state next : Nat} :
    ∀ {symbol : Symbol}, table.next? state symbol = some next → state < table.rows.length
  | .terminal _, h => lt_of_action (by rw [shift_of_next? h]; exact nofun)
  | .nonterminal _, h => lt_of_goto (Option.isSome_of_eq_some h)

/-- Entries, topmost first, each with a tree that leads from the state below to its own. -/
inductive Linked (table : Table) : List StackEntry → Prop
  | nil : Linked table []
  | cons {below : List StackEntry} {state : Nat} {tree : ParseTree} (rest : Linked table below)
      (edge : table.next? (Stack.mk below).topState tree.symbol = some state) :
      Linked table (⟨state, some tree⟩ :: below)

namespace Linked

variable {table : Table}

theorem drop {above : List StackEntry} (linked : Linked table above) (count : Nat) :
    Linked table (above.drop count) := by
  induction linked generalizing count with
  | nil =>
    rw [List.drop_nil]
    exact .nil
  | cons rest edge ih =>
    cases count with
    | zero => exact .cons rest edge
    | succ count => exact ih count

theorem push {stack : Stack} {state : Nat} {tree : ParseTree} (linked : Linked table stack.above)
    (edge : table.next? stack.topState tree.symbol = some state) :
    Linked table (stack.push state (some tree)).above :=
  .cons linked edge

/-- On a linked stack there are as many trees as entries. -/
theorem length_trees {above : List StackEntry} (linked : Linked table above) :
    (Stack.mk above).trees.length = above.length := by
  induction linked with
  | nil => rfl
  | @cons below state tree rest edge ih =>
    have hpush := Stack.trees_push ⟨below⟩ state tree
    rw [Stack.push] at hpush
    rw [hpush, List.length_append, ih, List.length_singleton, List.length_cons]

end Linked

/-! ### Taking entries off -/

namespace Stack

theorem popMany_zero (stack : Stack) : stack.popMany 0 = (.ok [], stack) := by
  rw [popMany, if_neg (Nat.not_lt_zero _)]
  rfl

theorem subtrees_concat (state : Nat) (tree : ParseTree) :
    ∀ {entries : List StackEntry} {children : List ParseTree}, subtrees entries = .ok children →
      subtrees (entries ++ [⟨state, some tree⟩]) = .ok (children ++ [tree])
  | [], children, h => by
    cases h
    rfl
  | ⟨_, none⟩ :: entries, children, h => by cases h
  | ⟨_, some first⟩ :: entries, children, h => by
    rw [subtrees] at h
    cases hrest : subtrees entries with
    | error fault =>
      rw [hrest] at h
      cases h
    | ok rest =>
      rw [hrest] at h
      cases h
      rw [List.cons_append, subtrees, subtrees_concat state tree hrest]
      rfl

/-- An entry on top comes off last in the list of trees. -/
theorem popMany_push {stack below : Stack} {count : Nat} {children : List ParseTree}
    (state : Nat) (tree : ParseTree) (h : stack.popMany count = (.ok children, below)) :
    (stack.push state (some tree)).popMany (count + 1) = (.ok (children ++ [tree]), below) := by
  obtain ⟨hle, hchildren, rfl⟩ := popMany_eq_ok.mp h
  refine popMany_eq_ok.mpr ⟨Nat.succ_le_succ hle, ?_, rfl⟩
  rw [push, List.take_succ_cons, List.reverse_cons, subtrees_concat state tree hchildren]

/-- A result is there to take when one entry with a tree is on the stack. -/
theorem takeResult_push (state : Nat) (tree : ParseTree) :
    (empty.push state (some tree)).takeResult = (.ok tree, ⟨[⟨state, none⟩]⟩) := rfl

end Stack

/-! ### Steps -/

namespace Session

variable {σ : Type} [TokenSource σ]

/-- Steps that leave the session unfinished keep its stack linked. -/
theorem linked_step {session : Session σ} (unfinished : session.step.2.finished = false)
    (linked : Linked session.table session.stack.above) :
    Linked session.step.2.table session.step.2.stack.above := by
  rw [table_step]
  obtain ⟨state, haction, hstep⟩ |
      ⟨index, rule, children, below, state, -, -, hpops, hgoto, hstep⟩ :=
    step_cases unfinished
  · rw [hstep, shift, peek_stack]
    exact linked.push (Table.next?_of_shift haction)
  · obtain ⟨-, -, rfl⟩ := Stack.popMany_eq_ok.mp hpops
    rw [hstep]
    exact (linked.drop rule.arity).push hgoto

/-- A session that starts with an empty stack has a linked one as long as it is unfinished. -/
theorem linked_after (table : Table) (source : σ) (n : Nat)
    (unfinished : ((start table source).after n).finished = false) :
    Linked table ((start table source).after n).stack.above := by
  have htable : ((start table source).after n).table = table := table_after _ n
  have hstart : Linked (start table source).table (start table source).stack.above := .nil
  have hlinked := after_induction (P := fun session => Linked session.table session.stack.above)
    (fun _ => linked_step) hstart n unfinished
  rw [htable] at hlinked
  exact hlinked

end Session

end ShiftReduce
