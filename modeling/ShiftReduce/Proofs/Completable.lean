import ShiftReduce.Proofs.Completeness

/-!
Stacks as beginnings. Where every nonterminal derives something and every goto entry of a state
has an item that asks for it, the trees on a linked stack are the beginning of a derivation of the
goal: an item of the top state says what is missing to the right of them, filling it in turns its
whole right-hand side into one tree, and that tree is asked for one level further down. In a table
that is also complete, the top state does not refuse what comes next in that derivation.
-/

namespace ShiftReduce

/-- The item has its dot before the nonterminal. An unmoved item stands for a rule that is lower in
rank, so asking goes back to a moved one in the end. -/
def Item.Expects (table : Table) (rank : Nonterminal → Nat) (kind : Nonterminal) (item : Item) :
    Prop :=
  ∃ rule ∈ table.rule? item.rule, rule.body[item.dot]? = some (.nonterminal kind) ∧
    (item.dot = 0 → rank rule.head < rank kind)

instance (table : Table) (rank : Nonterminal → Nat) (kind : Nonterminal) (item : Item) :
    Decidable (item.Expects table rank kind) :=
  inferInstanceAs (Decidable (∃ _ ∈ _, _))

/-- A table whose stacks all can be completed: each nonterminal has a rule that goes down in height,
an item expects each goto entry, and each state but the final one has a moved item. -/
structure Completable (table : Table) (kernel : Nat → List Item) (goal : Nonterminal)
    (final : Nat) (height rank : Nonterminal → Nat) : Prop where
  annotated : Annotated table kernel goal final
  derives : ∀ kind, ∃ rule ∈ table.rules, rule.head = kind ∧
    ∀ other, .nonterminal other ∈ rule.body → height other < height kind
  expects : ∀ state kind, (table.goto? state kind).isSome → state = 0 ∧ kind = goal ∨
    ∃ item : Item, Item.Holds table kernel state item ∧ item.Expects table rank kind
  moved : ∀ state symbol next, table.next? state symbol = some next → next = final ∨
    kernel next ≠ []

namespace Completable

variable {table : Table} {kernel : Nat → List Item} {goal : Nonterminal} {final : Nat}
  {height rank : Nonterminal → Nat}

theorem exists_trees_of {rules : List Rule} : ∀ symbols : List Symbol,
    (∀ kind, .nonterminal kind ∈ symbols →
      ∃ tree, Derivation rules tree ∧ tree.symbol = .nonterminal kind) →
    ∃ trees : List ParseTree, (∀ tree ∈ trees, Derivation rules tree) ∧
      trees.map ParseTree.symbol = symbols
  | [], _ => ⟨[], List.forall_mem_nil _, rfl⟩
  | symbol :: symbols, derives => by
    obtain ⟨trees, hderive, hspell⟩ := exists_trees_of symbols fun kind mem =>
      derives kind (List.mem_cons_of_mem _ mem)
    obtain ⟨tree, htree, hsymbol⟩ : ∃ tree, Derivation rules tree ∧ tree.symbol = symbol := by
      cases symbol with
      | terminal kind => exact ⟨.leaf (.bare kind 0), .leaf _, rfl⟩
      | nonterminal kind => exact derives kind List.mem_cons_self
    refine ⟨tree :: trees, List.forall_mem_cons.mpr ⟨htree, hderive⟩, ?_⟩
    rw [List.map_cons, hsymbol, hspell]

/-- Every nonterminal derives something. -/
theorem exists_tree (completable : Completable table kernel goal final height rank)
    (kind : Nonterminal) :
    ∃ tree, Derivation table.rules tree ∧ tree.symbol = .nonterminal kind := by
  obtain ⟨rule, hmem, rfl, hbelow⟩ := completable.derives kind
  obtain ⟨children, hderive, hspell⟩ := exists_trees_of rule.body fun other mem =>
    have := hbelow other mem
    exists_tree completable other
  exact ⟨.node rule.head children, .node hmem hspell.symm hderive, rfl⟩
termination_by height kind

/-- Neighbouring trees for any symbols. -/
theorem exists_trees (completable : Completable table kernel goal final height rank)
    (symbols : List Symbol) :
    ∃ trees : List ParseTree, (∀ tree ∈ trees, Derivation table.rules tree) ∧
      trees.map ParseTree.symbol = symbols :=
  exists_trees_of symbols fun kind _ => completable.exists_tree kind

end Completable

/-- An item whose missing trees are given turns what its dot has passed and these into one tree, to
go over from what lies below. -/
theorem Annotated.closes {table : Table} {kernel : Nat → List Item} {goal : Nonterminal}
    {final : Nat} (annotated : Annotated table kernel goal final) {stack : Stack}
    (linked : Linked table stack.above)
    (derive : ∀ tree ∈ stack.trees, Derivation table.rules tree) {item : Item} {rule : Rule}
    (lookup : table.rule? item.rule = some rule)
    (holds : Item.Holds table kernel stack.topState item) {missing : List ParseTree}
    (missing_derive : ∀ tree ∈ missing, Derivation table.rules tree)
    (spells : missing.map ParseTree.symbol = rule.body.drop item.dot) :
    ∃ (below : Stack) (tree : ParseTree), Linked table below.above ∧
      (∀ under ∈ below.trees, Derivation table.rules under) ∧
      Derivation table.rules tree ∧ tree.symbol = .nonterminal rule.head ∧
      (table.goto? below.topState rule.head).isSome ∧ below.depth + item.dot = stack.depth ∧
      ParseTree.leavesAll below.trees ++ tree.leaves =
        ParseTree.leavesAll stack.trees ++ ParseTree.leavesAll missing := by
  obtain ⟨children, below, hpops, hpassed, hlinked, hopens⟩ :=
    annotated.pops_passed lookup linked holds
  obtain ⟨opened, hopened, hgoto⟩ := Table.rule_of_opens hopens
  obtain rfl := Option.some.inj (lookup.symm.trans hopened)
  obtain ⟨hlength, htrees, -⟩ := Stack.popMany_ok hpops
  have hchildren : ∀ child ∈ children ++ missing, Derivation table.rules child := by
    intro child mem
    rcases List.mem_append.mp mem with hchild | hmissing
    · exact derive child (by rw [htrees]; exact List.mem_append_right _ hchild)
    · exact missing_derive child hmissing
  have hbody : rule.body = (children ++ missing).map ParseTree.symbol := by
    rw [List.map_append, hpassed, spells, List.take_append_drop]
  refine ⟨below, .node rule.head (children ++ missing), hlinked, ?_, ?_, rfl, hgoto, ?_, ?_⟩
  · intro under mem
    exact derive under (by rw [htrees]; exact List.mem_append_left _ mem)
  · exact .node (List.mem_of_getElem? lookup) hbody hchildren
  · have hdepth := congrArg List.length htrees
    rw [List.length_append, linked.length_trees, hlinked.length_trees, hlength] at hdepth
    exact hdepth.symm
  · rw [htrees, ParseTree.leaves, ParseTree.leavesAll_append, ParseTree.leavesAll_append,
      List.append_assoc]

namespace Completable

variable {table : Table} {kernel : Nat → List Item} {goal : Nonterminal} {final : Nat}
  {height rank : Nonterminal → Nat}

/-- A tree that the top state goes over is part of some derivation of the goal, right behind what
the stack holds, and behind it stands something that can follow it. -/
theorem exists_goal_of_goto (completable : Completable table kernel goal final height rank)
    {sets : Lookahead} (covers : sets.Covers table.rules) {last : Token}
    (last_follows : last.kind ∈ sets.follow goal) {stack : Stack}
    (linked : Linked table stack.above)
    (derive : ∀ under ∈ stack.trees, Derivation table.rules under) {tree : ParseTree}
    (derivation : Derivation table.rules tree) {kind : Nonterminal}
    (symbol : tree.symbol = .nonterminal kind) (goto : (table.goto? stack.topState kind).isSome) :
    ∃ whole more next rest, Derivation table.rules whole ∧ whole.symbol = .nonterminal goal ∧
      whole.leaves = ParseTree.leavesAll stack.trees ++ tree.leaves ++ more ∧
      more ++ [last] = next :: rest ∧ next.kind ∈ sets.follow kind := by
  rcases completable.expects _ _ goto with ⟨hstart, rfl⟩ | ⟨item, hholds, rule, hlookup, hat, hlow⟩
  · obtain ⟨above⟩ := stack
    obtain rfl := completable.annotated.above_eq_nil linked hstart
    exact ⟨tree, [], last, [], derivation, symbol, (List.append_nil _).symm, rfl, last_follows⟩
  · obtain ⟨missing, hmissing, hspell⟩ := completable.exists_trees (rule.body.drop (item.dot + 1))
    have hbody : (tree :: missing).map ParseTree.symbol = rule.body.drop item.dot := by
      obtain ⟨hlt, hget⟩ := List.getElem?_eq_some_iff.mp hat
      rw [List.map_cons, hspell, symbol, List.drop_eq_getElem_cons hlt, hget]
    obtain ⟨below, larger, hlinked, hbelow, hlarger, hsymbol, hgoto, hdepth, hleaves⟩ :=
      completable.annotated.closes linked derive hlookup hholds
        (List.forall_mem_cons.mpr ⟨derivation, hmissing⟩) hbody
    -- a moved item takes entries off, an unmoved one goes down in rank
    have hlex : below.depth < stack.depth ∨
        below.depth = stack.depth ∧ rank rule.head < rank kind := by
      rcases Nat.eq_zero_or_pos item.dot with hzero | hpos
      · rw [hzero] at hdepth
        exact Or.inr ⟨hdepth, hlow hzero⟩
      · exact Or.inl (by omega)
    obtain ⟨whole, more, next, rest, hwhole, hgoal, hstarts, hbehind, hfollows⟩ :=
      exists_goal_of_goto completable covers last_follows hlinked hbelow hlarger hsymbol hgoto
    obtain ⟨first, others, hsplit⟩ := exists_first (ParseTree.leavesAll missing) next rest
    refine ⟨whole, ParseTree.leavesAll missing ++ more, first, others, hwhole, hgoal, ?_, ?_, ?_⟩
    · rw [hstarts, hleaves, ParseTree.leavesAll]
      simp only [List.append_assoc]
    · rw [List.append_assoc, hbehind, hsplit]
    · exact covers.kind_mem_follow (List.mem_of_getElem? hlookup) hat hmissing hspell.symm hfollows
        hsplit
termination_by (stack.depth, rank kind)
decreasing_by
  rcases hlex with hless | ⟨hsame, hless⟩
  · exact Prod.Lex.left _ _ hless
  · rw [hsame]
    exact Prod.Lex.right _ hless

/-- What a linked stack of derivations holds is the beginning of a derivation of the goal, and its
top state does something on what comes next in that derivation, or on `last` at its end. -/
theorem exists_goal (completable : Completable table kernel goal final height rank)
    {sets : Lookahead} (complete : Complete table kernel sets)
    (start : table.goto? 0 goal = some final) (last : Token)
    (last_follows : last.kind ∈ sets.follow goal)
    (accepts : table.action final last.kind = .accept) {stack : Stack}
    (linked : Linked table stack.above)
    (derive : ∀ under ∈ stack.trees, Derivation table.rules under) :
    ∃ whole more next rest, Derivation table.rules whole ∧ whole.symbol = .nonterminal goal ∧
      whole.leaves = ParseTree.leavesAll stack.trees ++ more ∧ more ++ [last] = next :: rest ∧
      table.action stack.topState next.kind ≠ .error := by
  obtain ⟨above⟩ := stack
  have hlinked := linked
  cases linked with
  | nil =>
    obtain ⟨whole, hwhole, hgoal⟩ := completable.exists_tree goal
    obtain ⟨first, others, hsplit⟩ := exists_first whole.leaves last []
    have hgoto : table.next? 0 whole.symbol = some final := by
      rw [hgoal]
      exact start
    refine ⟨whole, whole.leaves, first, others, hwhole, hgoal, rfl, hsplit, ?_⟩
    refine complete.takes_first hwhole hgoto (fun head hhead => ?_) hsplit
    rw [hgoal] at hhead
    obtain rfl := Symbol.nonterminal.inj hhead
    exact last_follows
  | @cons below state tree rest edge =>
    rcases completable.moved _ _ _ edge with rfl | hmoved
    · obtain ⟨whole, hstack, hgoal⟩ := completable.annotated.final_stack hlinked rfl
      rw [hstack, Stack.trees_push, Stack.trees_empty] at derive ⊢
      refine ⟨whole, [], last, [], derive whole (List.mem_singleton.mpr rfl), hgoal, ?_, rfl, ?_⟩
      · rw [List.nil_append, ParseTree.leavesAll, ParseTree.leavesAll, List.append_nil,
          List.append_nil]
      · rw [Stack.topState_push, accepts]
        exact nofun
    · obtain ⟨item, hitem⟩ := List.exists_mem_of_ne_nil _ hmoved
      obtain ⟨⟨rule, hlookup, hpassed⟩, -⟩ := completable.annotated.came _ _ _ edge item hitem
      have hdot : item.dot ≤ rule.body.length := by
        obtain ⟨hlt, -⟩ := List.getElem?_eq_some_iff.mp hpassed
        omega
      obtain ⟨missing, hmissing, hspell⟩ := completable.exists_trees (rule.body.drop item.dot)
      obtain ⟨under, larger, hbelow, hderive, hlarger, hsymbol, hgoto, -, hleaves⟩ :=
        completable.annotated.closes hlinked derive hlookup (Or.inl hitem) hmissing hspell
      obtain ⟨whole, more, next, rest, hwhole, hgoal, hstarts, hbehind, hfollows⟩ :=
        completable.exists_goal_of_goto complete.covers last_follows hbelow hderive hlarger hsymbol
          hgoto
      obtain ⟨first, others, hsplit⟩ := exists_first (ParseTree.leavesAll missing) next rest
      refine ⟨whole, ParseTree.leavesAll missing ++ more, first, others, hwhole, hgoal, ?_, ?_, ?_⟩
      · rw [hstarts, hleaves, List.append_assoc]
      · rw [List.append_assoc, hbehind, hsplit]
      · exact complete.takes_missing hlookup (Or.inl hitem) hdot hmissing
          (fun tree mem => complete.takes_first (hmissing tree mem)) hspell.symm hfollows hsplit

end Completable

end ShiftReduce
