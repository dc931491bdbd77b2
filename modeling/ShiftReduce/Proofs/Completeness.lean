import ShiftReduce.Proofs.Lookahead
import ShiftReduce.Proofs.Sound

/-!
Derivations drive the automaton. In a complete table every item leads on: over the symbol behind
its dot to a state that holds the advanced item, and with its dot at the end to a reduction on
whatever can follow its rule. By induction on a derivation, a session that has opened its symbol
reads its leaves and puts the tree on the stack, one step for each leaf and node.
-/

namespace ShiftReduce

/-- From the state, the item leads on: over the symbol behind its dot to the advanced item, or by
its rule's reduction on whatever can follow it. -/
def Item.LeadsOn (table : Table) (kernel : Nat → List Item) (sets : Lookahead) (state : Nat)
    (item : Item) : Prop :=
  ∀ rule ∈ table.rule? item.rule,
    (∀ symbol ∈ rule.body[item.dot]?, ∃ next ∈ table.next? state symbol,
      ⟨item.rule, item.dot + 1⟩ ∈ kernel next) ∧
    (item.dot = rule.body.length → ∀ kind ∈ sets.follow rule.head,
      table.action state kind = .reduce item.rule)
  deriving Decidable

/-- A table whose items all lead on. -/
structure Complete (table : Table) (kernel : Nat → List Item) (sets : Lookahead) : Prop where
  arity_eq : ∀ rule ∈ table.rules, rule.arity = rule.body.length
  covers : sets.Covers table.rules
  leads_on : ∀ state item, Item.Holds table kernel state item →
    item.LeadsOn table kernel sets state

namespace Stack

/-- With the entry below them the topmost trees come off as well. -/
theorem popMany_succ {stack below : Stack} {count state : Nat} {tree : ParseTree}
    {children : List ParseTree}
    (h : stack.popMany count = (.ok children, below.push state (some tree))) :
    stack.popMany (count + 1) = (.ok (tree :: children), below) := by
  obtain ⟨-, hchildren, hbelow⟩ := popMany_eq_ok.mp h
  have hcons : stack.above.drop count = ⟨state, some tree⟩ :: below.above :=
    (congrArg above hbelow).symm
  have hat : stack.above[count]? = some ⟨state, some tree⟩ := by
    rw [← List.head?_drop, hcons, List.head?_cons]
  refine popMany_eq_ok.mpr ⟨(List.getElem?_eq_some_iff.mp hat).1, ?_, ?_⟩
  · rw [List.take_add_one, hat, Option.toList, List.reverse_append, List.reverse_singleton,
      List.singleton_append, subtrees, hchildren]
    rfl
  · rw [List.drop_add_one_eq_tail_drop, hcons, List.tail_cons]

end Stack

namespace Session

variable {σ : Type} [TokenSource σ]

/-- The session stands on this stack with these tokens to read next. -/
structure Awaits (table : Table) (stack : Stack) (tokens : List Token) (session : Session σ) :
    Prop where
  table_eq : session.table = table
  stack_eq : session.stack = stack
  reads : session.upcoming tokens.length = tokens
  unfinished : session.finished = false

namespace Awaits

variable {table : Table} {stack : Stack} {token : Token} {rest : List Token} {session : Session σ}

theorem peek_eq (awaits : Awaits table stack (token :: rest) session) :
    session.peek.1 = token := by
  have hreads := awaits.reads
  rw [List.length_cons, upcoming_succ session 0] at hreads
  exact (List.cons.inj hreads).1

theorem step_shift (awaits : Awaits table stack (token :: rest) session) {state : Nat}
    (action : table.action stack.topState token.kind = .shift state) :
    Awaits table (stack.push state (some (.leaf token))) rest session.step.2 := by
  have hreads := awaits.reads
  rw [List.length_cons, upcoming_succ session state] at hreads
  obtain ⟨hpeek, hrest⟩ := List.cons.inj hreads
  rw [← awaits.table_eq, ← awaits.stack_eq, ← hpeek, ← peek_table, ← peek_stack session] at action
  rw [step_of_unfinished awaits.unfinished, (Effect.shift action).eq_move]
  refine ⟨?_, ?_, hrest, ?_⟩
  · exact (peek_table session).trans awaits.table_eq
  · rw [shift, peek_stack, awaits.stack_eq, hpeek]
  · exact (peek_finished session).trans awaits.unfinished

theorem step_reduce (awaits : Awaits table stack (token :: rest) session) {index state : Nat}
    {rule : Rule} {children : List ParseTree} {below : Stack}
    (action : table.action stack.topState token.kind = .reduce index)
    (lookup : table.rule? index = some rule)
    (pops : stack.popMany rule.arity = (.ok children, below))
    (goto : table.goto? below.topState rule.head = some state) :
    Awaits table (below.push state (some (.node rule.head children))) (token :: rest)
      session.step.2 := by
  rw [← awaits.peek_eq] at action
  rw [← awaits.table_eq, ← peek_table session] at action lookup goto
  rw [← awaits.stack_eq, ← peek_stack session] at action pops
  rw [step_of_unfinished awaits.unfinished, (Effect.reduce action lookup pops goto).eq_move]
  refine ⟨?_, rfl, ?_, ?_⟩
  · exact (peek_table session).trans awaits.table_eq
  · rw [upcoming_stack, upcoming_peek]
    exact awaits.reads
  · exact (peek_finished session).trans awaits.unfinished

theorem step_accept (awaits : Awaits table stack (token :: rest) session) {state : Nat}
    {tree : ParseTree} (one : stack = .push .empty state (some tree))
    (action : table.action stack.topState token.kind = .accept) :
    session.step.1 = .ok (.accepted tree) := by
  have htakes : session.peek.2.stack.takeResult = (.ok tree, ⟨[⟨state, none⟩]⟩) := by
    rw [peek_stack, awaits.stack_eq, one, Stack.takeResult_push]
  rw [← awaits.peek_eq, ← awaits.table_eq, ← awaits.stack_eq, ← peek_table,
    ← peek_stack session] at action
  rw [step_of_unfinished awaits.unfinished, (Effect.accept action htakes).eq_move]

end Awaits

/-- Wherever its symbol leads on, the tree is read from its leaves and put on the stack. -/
def RunsOver (σ : Type) [TokenSource σ] (table : Table) (sets : Lookahead) (tree : ParseTree) :
    Prop :=
  ∀ {stack : Stack} {state : Nat} {next : Token} {rest : List Token} {session : Session σ},
    table.next? stack.topState tree.symbol = some state →
    (∀ head, tree.symbol = .nonterminal head → next.kind ∈ sets.follow head) →
    Awaits table stack (tree.leaves ++ next :: rest) session →
    Awaits table (stack.push state (some tree)) (next :: rest) (session.after tree.size)

end Session

namespace Complete

open Session

variable {σ : Type} [TokenSource σ] {table : Table} {kernel : Nat → List Item} {sets : Lookahead}

/-- Children that run over run over one after the other, along the item that expects them. -/
theorem runs_over_children (complete : Complete table kernel sets) {index : Nat} {rule : Rule}
    (lookup : table.rule? index = some rule) :
    ∀ {children : List ParseTree} {dot : Nat} {stack : Stack} {next : Token} {rest : List Token}
      {session : Session σ}, (∀ child ∈ children, Derivation table.rules child) →
      (∀ child ∈ children, RunsOver σ table sets child) →
      rule.body.drop dot = children.map ParseTree.symbol →
      Item.Holds table kernel stack.topState ⟨index, dot⟩ →
      next.kind ∈ sets.follow rule.head →
      Awaits table stack (ParseTree.leavesAll children ++ next :: rest) session →
      ∃ top, Awaits table top (next :: rest) (session.after (ParseTree.sizeAll children)) ∧
        top.popMany children.length = (.ok children, stack) ∧
        Item.Holds table kernel top.topState ⟨index, dot + children.length⟩
  | [], dot, stack, next, rest, session, _, _, _, holds, _, awaits =>
    ⟨stack, awaits, Stack.popMany_zero stack, holds⟩
  | child :: children, dot, stack, next, rest, session, derive, runs, spells, holds, follows,
      awaits => by
    have hsymbol : rule.body[dot]? = some child.symbol := by
      rw [← List.head?_drop, spells, List.map_cons, List.head?_cons]
    have hspells : rule.body.drop (dot + 1) = children.map ParseTree.symbol := by
      rw [List.drop_add_one_eq_tail_drop, spells, List.map_cons, List.tail_cons]
    have hderive : ∀ other ∈ children, Derivation table.rules other := fun other mem =>
      derive other (List.mem_cons_of_mem _ mem)
    obtain ⟨hadvances, -⟩ := complete.leads_on _ _ holds rule lookup
    obtain ⟨state, hnext, hkernel⟩ := hadvances _ hsymbol
    obtain ⟨token, more, hsplit⟩ := exists_first (ParseTree.leavesAll children) next rest
    rw [ParseTree.leavesAll, List.append_assoc, hsplit] at awaits
    have hchild := runs child List.mem_cons_self hnext
      (fun head hhead => complete.covers.kind_mem_follow (List.mem_of_getElem? lookup)
        (hsymbol.trans (congrArg some hhead)) hderive hspells follows hsplit) awaits
    rw [← hsplit] at hchild
    have hadvanced : Item.Holds table kernel (stack.push state (some child)).topState
        ⟨index, dot + 1⟩ := Or.inl hkernel
    obtain ⟨top, hawaits, hpops, hholds⟩ := complete.runs_over_children lookup hderive
      (fun other mem => runs other (List.mem_cons_of_mem _ mem)) hspells hadvanced follows hchild
    refine ⟨top, ?_, Stack.popMany_succ hpops, ?_⟩
    · rw [ParseTree.sizeAll, after_add]
      exact hawaits
    · rw [List.length_cons, Nat.add_comm children.length, ← Nat.add_assoc]
      exact hholds

/-- Every derivation runs over. -/
theorem runs_over (complete : Complete table kernel sets) {tree : ParseTree}
    (derivation : Derivation table.rules tree) : RunsOver σ table sets tree := by
  induction derivation with
  | leaf token =>
    intro stack state next rest session hnext _ awaits
    exact awaits.step_shift (Table.shift_of_next? hnext)
  | @node rule children mem spells below ih =>
    intro stack state next rest session hgoto follows awaits
    obtain ⟨index, hlookup⟩ := List.getElem?_of_mem mem
    have hlookup : table.rule? index = some rule := hlookup
    have hgoto : table.goto? stack.topState rule.head = some state := hgoto
    have hopens : table.opens stack.topState index = true := by
      rw [Table.opens, hlookup]
      exact Option.isSome_of_eq_some hgoto
    have hfollow := follows rule.head rfl
    obtain ⟨top, hawaits, hpops, hholds⟩ := complete.runs_over_children hlookup below ih
      (by rw [List.drop_zero, spells]) (.inr ⟨rfl, hopens⟩) hfollow awaits
    have hlength : children.length = rule.body.length := by rw [spells, List.length_map]
    obtain ⟨-, hcompletes⟩ := complete.leads_on _ _ hholds rule hlookup
    have haction : table.action top.topState next.kind = .reduce index :=
      hcompletes (by rw [Nat.zero_add, hlength]) _ hfollow
    rw [ParseTree.size, after_succ]
    refine hawaits.step_reduce haction hlookup ?_ hgoto
    rw [complete.arity_eq rule mem, ← hlength]
    exact hpops

/-! ### First tokens -/

/-- Wherever its symbol leads on, something is done on the first token of the tree, or, where the
tree has none, on the token behind it. -/
def TakesFirst (table : Table) (sets : Lookahead) (tree : ParseTree) : Prop :=
  ∀ {state target : Nat} {next token : Token} {rest more : List Token},
    table.next? state tree.symbol = some target →
    (∀ head, tree.symbol = .nonterminal head → next.kind ∈ sets.follow head) →
    tree.leaves ++ next :: rest = token :: more → table.action state token.kind ≠ .error

/-- Where an item holds, something is done on the first token of what it is missing, or, where it
is complete, on the token behind. -/
theorem takes_missing (complete : Complete table kernel sets) {state index dot : Nat} {rule : Rule}
    (lookup : table.rule? index = some rule)
    (holds : Item.Holds table kernel state ⟨index, dot⟩) (le : dot ≤ rule.body.length)
    {missing : List ParseTree} (derive : ∀ tree ∈ missing, Derivation table.rules tree)
    (takes : ∀ tree ∈ missing, TakesFirst table sets tree)
    (spells : rule.body.drop dot = missing.map ParseTree.symbol) {next token : Token}
    {rest more : List Token} (follows : next.kind ∈ sets.follow rule.head)
    (split : ParseTree.leavesAll missing ++ next :: rest = token :: more) :
    table.action state token.kind ≠ .error := by
  have hmem : rule ∈ table.rules := List.mem_of_getElem? lookup
  obtain ⟨hadvances, hcompletes⟩ := complete.leads_on _ _ holds rule lookup
  cases missing with
  | nil =>
    obtain ⟨rfl, -⟩ := List.cons.inj split
    have hlength : rule.body.length ≤ dot := List.drop_eq_nil_iff.mp spells
    rw [hcompletes (Nat.le_antisymm le hlength) _ follows]
    exact nofun
  | cons tree missing =>
    have hsymbol : rule.body[dot]? = some tree.symbol := by
      rw [← List.head?_drop, spells, List.map_cons, List.head?_cons]
    have hspells : rule.body.drop (dot + 1) = missing.map ParseTree.symbol := by
      rw [List.drop_add_one_eq_tail_drop, spells, List.map_cons, List.tail_cons]
    obtain ⟨target, htarget, -⟩ := hadvances _ hsymbol
    obtain ⟨first, others, hbehind⟩ := exists_first (ParseTree.leavesAll missing) next rest
    rw [ParseTree.leavesAll, List.append_assoc, hbehind] at split
    refine takes tree List.mem_cons_self htarget (fun head hhead => ?_) split
    exact complete.covers.kind_mem_follow hmem (hsymbol.trans (congrArg some hhead))
      (fun other mem => derive other (List.mem_cons_of_mem _ mem)) hspells follows hbehind

/-- Something is done on the first token of every derivation. -/
theorem takes_first (complete : Complete table kernel sets) {tree : ParseTree}
    (derivation : Derivation table.rules tree) : TakesFirst table sets tree := by
  induction derivation with
  | leaf first =>
    intro state target next token rest more hnext _ split
    obtain ⟨rfl, -⟩ := List.cons.inj split
    rw [Table.shift_of_next? hnext]
    exact nofun
  | @node rule children mem spells below ih =>
    intro state target next token rest more hgoto follows split
    obtain ⟨index, hlookup⟩ := List.getElem?_of_mem mem
    have hlookup : table.rule? index = some rule := hlookup
    have hopens : table.opens state index = true := by
      rw [Table.opens, hlookup]
      exact Option.isSome_of_eq_some hgoto
    exact complete.takes_missing hlookup (.inr ⟨rfl, hopens⟩) (Nat.zero_le _) below ih
      (by rw [List.drop_zero, spells]) (follows rule.head rfl) split

end Complete

end ShiftReduce
