import ShiftReduce.Proofs.Items
import ShiftReduce.Proofs.Upcoming
import ShiftReduce.Tree.Derivation

/-!
Sessions over an annotated table. A step on a linked stack has one of four answers: it shifts, it
reduces by a rule whose right-hand side it has found, it accepts the one tree above the start, or
it reports the token it has just seen as unexpected. Every tree it builds is a derivation, so a
run that accepts has read a derivation of the goal and the end of the input behind it.
-/

namespace ShiftReduce

namespace Session

variable {σ : Type} [TokenSource σ]

/-- An unfinished session whose table is annotated, whose stack moves of that table have built, and
whose trees are derivations. -/
structure Sound (kernel : Nat → List Item) (goal : Nonterminal) (final : Nat)
    (session : Session σ) : Prop where
  annotated : Annotated session.table kernel goal final
  linked : Linked session.table session.stack.above
  derives : ∀ tree ∈ session.stack.trees, Derivation session.table.rules tree
  unfinished : session.finished = false

variable {kernel : Nat → List Item} {goal : Nonterminal} {final : Nat}

/-- A reduction that the table asks for goes through. -/
theorem Sound.reduce_succeeds {session : Session σ} (sound : Sound kernel goal final session)
    (index : Nat) (action : session.table.action session.stack.topState session.peek.1.kind =
      .reduce index) :
    ∃ rule children below state, session.table.rule? index = some rule ∧
      session.stack.popMany rule.arity = (.ok children, below) ∧
      rule.body = children.map ParseTree.symbol ∧
      session.table.goto? below.topState rule.head = some state := by
  obtain ⟨rule, children, below, state, hlookup, hpops, hbody, -, hgoto⟩ :=
    sound.annotated.reduce_succeeds sound.linked action
  exact ⟨rule, children, below, state, hlookup, hpops, hbody, hgoto⟩

/-- An accept that the table asks for finds a tree of the goal and nothing else, at the end of the
input. -/
theorem Sound.accept_succeeds {session : Session σ} (sound : Sound kernel goal final session)
    (action : session.table.action session.stack.topState session.peek.1.kind = .accept) :
    session.peek.1.kind = .endOfInput ∧
      ∃ tree, session.stack = .push .empty final (some tree) ∧
        tree.symbol = .nonterminal goal := by
  obtain ⟨hend, htop⟩ := sound.annotated.accepts _ _ action
  exact ⟨hend, sound.annotated.final_stack sound.linked htop⟩

/-- The answers of a step on a sound session. -/
theorem Sound.answer {session : Session σ} (sound : Sound kernel goal final session) :
    (∃ state, session.step.1 = .ok (.shifted state)) ∨
    (∃ index state, session.step.1 = .ok (.reduced index state)) ∨
    (∃ tree, session.step.1 = .ok (.accepted tree) ∧ session.peek.1.kind = .endOfInput ∧
      session.stack = .push .empty final (some tree) ∧ tree.symbol = .nonterminal goal) ∨
    session.step.1 = .error (.unexpected session.peek.1
      (session.table.expected session.stack.topState)) := by
  have heffect := effect_step sound.unfinished
  generalize session.step = result at heffect ⊢
  have hreduce := sound.reduce_succeeds
  have haccept := sound.accept_succeeds
  rw [← peek_table session, ← peek_stack session] at hreduce haccept ⊢
  cases heffect with
  | @shift state action => exact Or.inl ⟨state, rfl⟩
  | @reduce index state rule children below action lookup pops goto =>
    exact Or.inr (Or.inl ⟨index, state, rfl⟩)
  | accept action takes =>
    obtain ⟨hend, tree, hstack, hsymbol⟩ := haccept action
    rw [hstack, Stack.takeResult_push] at takes
    cases takes
    exact Or.inr (Or.inr (Or.inl ⟨_, rfl, hend, hstack, hsymbol⟩))
  | reject action => exact Or.inr (Or.inr (Or.inr rfl))
  | unknownRule action lookup =>
    obtain ⟨rule, children, below, state, hlookup, -⟩ := hreduce _ action
    rw [lookup] at hlookup
    cases hlookup
  | popFault action lookup pops =>
    obtain ⟨rule, children, below, state, hlookup, hpops, -⟩ := hreduce _ action
    obtain rfl := Option.some.inj (lookup.symm.trans hlookup)
    rw [pops] at hpops
    cases hpops
  | missingGoto action lookup pops goto =>
    obtain ⟨rule, children, below, state, hlookup, hpops, -, hgoto⟩ := hreduce _ action
    obtain rfl := Option.some.inj (lookup.symm.trans hlookup)
    obtain ⟨-, rfl⟩ := Prod.mk.inj (pops.symm.trans hpops)
    rw [goto] at hgoto
    cases hgoto
  | takeFault action takes =>
    obtain ⟨-, tree, hstack, -⟩ := haccept action
    rw [hstack, Stack.takeResult_push] at takes
    cases takes

/-- Steps that leave a sound session unfinished leave it sound. -/
theorem Sound.step {session : Session σ} (unfinished : session.step.2.finished = false)
    (sound : Sound kernel goal final session) : Sound kernel goal final session.step.2 := by
  refine ⟨?_, linked_step unfinished sound.linked, ?_, unfinished⟩
  · rw [table_step]
    exact sound.annotated
  · have hderives := sound.derives
    rw [table_step]
    obtain ⟨state, -, hstep⟩ |
        ⟨index, rule, children, below, state, haction, hlookup, hpops, -, hstep⟩ :=
      step_cases unfinished
    · intro tree mem
      rw [hstep, shift, Stack.trees_push, peek_stack, List.mem_append, List.mem_singleton] at mem
      rcases mem with hmem | rfl
      · exact hderives tree hmem
      · exact .leaf _
    · obtain ⟨-, htrees, -⟩ := Stack.popMany_ok hpops
      obtain ⟨found, built, under, target, hfound, hbuilt, hbody, -⟩ :=
        sound.reduce_succeeds _ haction
      obtain rfl := Option.some.inj (hlookup.symm.trans hfound)
      rw [hpops] at hbuilt
      obtain ⟨hchildren, -⟩ := Prod.mk.inj hbuilt
      obtain rfl := Except.ok.inj hchildren
      rw [htrees] at hderives
      intro tree mem
      rw [hstep, Stack.trees_push, List.mem_append, List.mem_singleton] at mem
      rcases mem with hmem | rfl
      · exact hderives tree (List.mem_append_left _ hmem)
      · exact .node (List.mem_of_getElem? hlookup) hbody fun child hchild =>
          hderives child (List.mem_append_right _ hchild)

theorem Sound.after {table : Table} (annotated : Annotated table kernel goal final) (source : σ)
    {n : Nat} (unfinished : ((start table source).after n).finished = false) :
    Sound kernel goal final ((start table source).after n) :=
  after_induction (fun _ => Sound.step) ⟨annotated, .nil, List.forall_mem_nil _, rfl⟩ n unfinished

/-- A run that accepts has built a derivation of the goal over the tokens it has shifted, and has
seen the end of the input behind them. -/
theorem accepted_run {table : Table} (annotated : Annotated table kernel goal final) {source : σ}
    {limit : Nat} {tree : ParseTree}
    (accepted : ((start table source).run limit).1 = .accepted tree) :
    Derivation table.rules tree ∧ tree.symbol = .nonterminal goal ∧
      tree.leaves = (start table source).shifted limit ∧
      ∃ last, last.kind = .endOfInput ∧
        (TokenSource.take source (tree.leaves.length + 1)).1 = tree.leaves ++ [last] := by
  have hended : ((start table source).run limit).1 ≠ .unfinished := by
    rw [accepted]
    exact nofun
  obtain ⟨n, hbefore, hrun, hleaves, htaken⟩ := ended_run hended
  have hsound := Sound.after annotated source hbefore
  rw [hrun] at accepted
  rcases hsound.answer with ⟨_, h⟩ | ⟨_, _, h⟩ | ⟨result, h, hend, hstack, hsymbol⟩ | h
  · rw [h] at accepted
    cases accepted
  · rw [h] at accepted
    cases accepted
  · rw [h] at accepted
    obtain rfl : result = tree := Outcome.accepted.inj accepted
    have hderives := hsound.derives
    rw [hstack, Stack.trees_push, Stack.trees_empty] at hderives hleaves
    have hshifted : result.leaves = (start table source).shifted limit := by
      rw [← List.append_nil result.leaves]
      exact hleaves
    refine ⟨?_, hsymbol, hshifted, _, hend, ?_⟩
    · have htable : ((start table source).after n).table = table := table_after _ n
      rw [htable] at hderives
      exact hderives result (List.mem_singleton.mpr rfl)
    · rw [hshifted]
      exact htaken
  · rw [h] at accepted
    cases accepted

end Session

end ShiftReduce
