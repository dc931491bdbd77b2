import ShiftReduce.Proofs.Pulled
import ShiftReduce.Tree.Postorder

/-!
The moves of a session and the trees it builds. Every shift adds a leaf of the next token to what
is on the stack and every reduction a node over as many trees as its rule says, so the marks of
the stack's trees in postorder are the moves made so far, one mark for each. What has been pulled
are the leaves of these trees and the token in the buffer, which is empty but behind a reduction.
-/

namespace ShiftReduce

/-- What moves leave behind of the tokens they read: a leaf of the next token for a shift, a node
over as many trees as its rule's arity for a reduction. -/
inductive Builds (table : Table) : List Step → List Token → List Mark → Prop
  | nil : Builds table [] [] []
  | shift {moves : List Step} {tokens : List Token} {marks : List Mark} {state : Nat}
      {token : Token} (before : Builds table moves tokens marks) :
      Builds table (moves ++ [.shifted state]) (tokens ++ [token]) (marks ++ [.leaf token])
  | reduce {moves : List Step} {tokens : List Token} {marks : List Mark} {index state : Nat}
      {rule : Rule} (lookup : table.rule? index = some rule)
      (before : Builds table moves tokens marks) :
      Builds table (moves ++ [.reduced index state]) tokens
        (marks ++ [.node rule.head rule.arity])

theorem Builds.length_eq {table : Table} {moves : List Step} {tokens : List Token}
    {marks : List Mark} (builds : Builds table moves tokens marks) :
    marks.length = moves.length := by
  induction builds with
  | nil => rfl
  | shift _ ih => rw [List.length_append, List.length_append, ih]; rfl
  | reduce _ _ ih => rw [List.length_append, List.length_append, ih]; rfl

/-- A result that is taken is the one tree on the stack. -/
theorem Stack.trees_of_takeResult {stack below : Stack} {tree : ParseTree}
    (takes : stack.takeResult = (.ok tree, below)) : stack.trees = [tree] := by
  rcases stack.takeResult_cases with ⟨_, found, rfl, htakes⟩ | ⟨_, -, htakes⟩ | ⟨-, htakes⟩
  · rw [htakes] at takes
    obtain rfl := Except.ok.inj (Prod.mk.inj takes).1
    rfl
  · rw [htakes] at takes
    cases takes
  · rw [htakes] at takes
    cases takes

namespace Session

variable {σ : Type} [TokenSource σ]

/-! ### Moves -/

/-- A step that leaves the session unfinished adds its mark to those of the trees on the stack. -/
theorem builds_step {session : Session σ} {table : Table} (same : session.table = table)
    (unfinished : session.step.2.finished = false) {moves : List Step}
    (builds : Builds table moves (ParseTree.leavesAll session.stack.trees)
      (ParseTree.postorderAll session.stack.trees)) :
    ∃ move, session.step.1 = .ok move ∧
      Builds table (moves ++ [move]) (ParseTree.leavesAll session.step.2.stack.trees)
        (ParseTree.postorderAll session.step.2.stack.trees) := by
  rw [leaves_step unfinished]
  obtain ⟨state, -, hstep⟩ | ⟨index, rule, children, below, state, -, hlookup, hpops, -, hstep⟩ :=
    step_cases unfinished
  · rw [hstep]
    refine ⟨_, rfl, ?_⟩
    rw [shift, Stack.trees_push, peek_stack, ParseTree.postorderAll_append]
    exact .shift builds
  · obtain ⟨hlength, htrees, -⟩ := Stack.popMany_ok hpops
    rw [same] at hlookup
    have hmarks : ParseTree.postorderAll (below.trees ++ [.node rule.head children]) =
        ParseTree.postorderAll session.stack.trees ++ [.node rule.head rule.arity] := by
      rw [htrees, ParseTree.postorderAll_append, ParseTree.postorderAll_append, ← hlength]
      simp [ParseTree.postorderAll, ParseTree.postorder]
    rw [hstep]
    refine ⟨_, rfl, ?_⟩
    rw [Stack.trees_push, hmarks, shiftedBy, List.append_nil]
    · exact .reduce hlookup builds
    · rintro _ ⟨⟩

/-- The moves of an unfinished session build the trees on its stack. -/
theorem builds_after (table : Table) (source : σ) (n : Nat)
    (unfinished : ((start table source).after n).finished = false) :
    ∃ moves : List Step, moves.length = n ∧
      (∀ index (lt : index < moves.length),
        ((start table source).after index).step.1 = .ok moves[index]) ∧
      Builds table moves (ParseTree.leavesAll ((start table source).after n).stack.trees)
        (ParseTree.postorderAll ((start table source).after n).stack.trees) := by
  induction n with
  | zero => exact ⟨[], rfl, fun _ h => absurd h (Nat.not_lt_zero _), .nil⟩
  | succ n ih =>
    rw [after_succ] at unfinished ⊢
    obtain ⟨moves, hlength, hanswers, hbuilds⟩ := ih (unfinished_of_step unfinished)
    obtain ⟨move, hanswer, hnext⟩ := builds_step (table_after _ n) unfinished hbuilds
    refine ⟨moves ++ [move], ?_, ?_, hnext⟩
    · rw [List.length_append, hlength, List.length_singleton]
    · intro index hindex
      rw [List.length_append, List.length_singleton] at hindex
      rcases Nat.lt_succ_iff_lt_or_eq.mp hindex with hlt | rfl
      · rw [List.getElem_append_left hlt]
        exact hanswers index hlt
      · rw [List.getElem_concat_length, hlength]
        · exact hanswer
        · rfl

/-- A session whose answers have all been shifts and reductions is unfinished. -/
theorem unfinished_of_quiet {session : Session σ} (unfinished : session.finished = false)
    {moves : List Step} (quiet : ∀ tree, .accepted tree ∉ moves)
    (answers : ∀ index (lt : index < moves.length),
      (session.after index).step.1 = .ok moves[index]) :
    ∀ n ≤ moves.length, (session.after n).finished = false
  | 0, _ => unfinished
  | n + 1, hn => by
    have hbefore := unfinished_of_quiet unfinished quiet answers n (Nat.le_of_succ_le hn)
    have hanswer := answers n hn
    rw [after_succ, ← outcomeOf_step_eq_unfinished hbefore, hanswer]
    cases hmove : moves[n] with
    | shifted state => rfl
    | reduced index state => rfl
    | accepted tree => exact absurd (hmove ▸ List.getElem_mem hn) (quiet tree)

/-! ### The buffer and the source -/

/-- A shift uses the buffered token up. -/
theorem lookahead_of_shifted {session : Session σ} {state : Nat}
    (unfinished : session.step.2.finished = false)
    (shifts : session.step.1 = .ok (.shifted state)) : session.step.2.lookahead = none := by
  obtain ⟨_, -, hstep⟩ | ⟨_, _, _, _, _, -, -, -, -, hstep⟩ := step_cases unfinished
  · rw [hstep]
    rfl
  · rw [hstep] at shifts
    cases shifts

/-- A token is in the buffer only if the last move has left it there. -/
theorem buffered_after_reduction {session : Session σ} (empty : session.lookahead = none)
    (unfinished : session.finished = false) {moves : List Step}
    (quiet : ∀ tree, .accepted tree ∉ moves)
    (answers : ∀ index (lt : index < moves.length),
      (session.after index).step.1 = .ok moves[index])
    (buffered : (session.after moves.length).lookahead.isSome) :
    ∃ index state, moves.getLast? = some (.reduced index state) := by
  have hunfinished := unfinished_of_quiet unfinished quiet answers
  obtain rfl | ⟨front, last, hmoves⟩ := List.eq_nil_or_concat moves
  · rw [List.length_nil, after, empty] at buffered
    cases buffered
  · rw [List.concat_eq_append] at hmoves
    subst hmoves
    have hlast := answers front.length (by simp)
    rw [List.getElem_concat_length rfl] at hlast
    have hnext := hunfinished _ (Nat.le_refl _)
    rw [List.length_append, List.length_singleton, after_succ] at buffered hnext
    rw [List.getLast?_concat]
    cases last with
    | shifted state =>
      rw [lookahead_of_shifted hnext hlast] at buffered
      cases buffered
    | reduced index state => exact ⟨index, state, rfl⟩
    | accepted tree =>
      exact absurd (List.mem_append_right _ (List.mem_singleton_self _)) (quiet tree)

/-- The record of a session holds the first tokens of the source in order, and what is left of the
source comes behind them. -/
theorem take_pulled (table : Table) (source : σ) (n : Nat)
    (unfinished : ((start table ({ inner := source } : Recorded σ)).after n).finished = false) :
    let session := (start table ({ inner := source } : Recorded σ)).after n
    TokenSource.take source session.source.pulled.length =
      (session.source.pulled, session.source.inner) := by
  refine after_induction (P := fun session : Session (Recorded σ) =>
    TokenSource.take source session.source.pulled.length =
      (session.source.pulled, session.source.inner)) ?_ rfl n unfinished
  intro session hnext htake
  rw [source_step (unfinished_of_step hnext)]
  obtain ⟨table, ⟨inner, pulled⟩, stack, _ | token, line, finished⟩ := session
  · change TokenSource.take source (pulled ++ [_]).length = _
    rw [List.length_append, List.length_singleton, TokenSource.take_succ, htake]
    rfl
  · exact htake

/-- An accepting step hands out the one tree on the stack, and the token it has looked at is the
last one pulled. -/
theorem accepting_step {session : Session (Recorded σ)} (unfinished : session.finished = false)
    (accounts : Accounts session) {tree : ParseTree}
    (accepts : session.step.1 = .ok (.accepted tree)) :
    session.stack.trees = [tree] ∧
      session.step.2.source.pulled = tree.leaves ++ [session.peek.1] := by
  have htrees : session.stack.trees = [tree] := by
    have heffect := effect_step unfinished
    rw [← peek_stack session]
    generalize session.step = result at heffect accepts
    cases heffect with
    | accept action takes =>
      cases accepts
      exact Stack.trees_of_takeResult takes
    | _ => cases accepts
  refine ⟨htrees, ?_⟩
  rw [source_step unfinished, accounts.peek, htrees, ParseTree.leavesAll, ParseTree.leavesAll,
    List.append_nil]

/-- The trees on the stack in postorder are the trace of the moves so far, and their leaves with the
buffered token are what has been pulled. -/
theorem postorder_is_trace (table : Table) (source : σ) {moves : List Step}
    (quiet : ∀ tree, .accepted tree ∉ moves)
    (answers : ∀ index (lt : index < moves.length),
      ((start table ({ inner := source } : Recorded σ)).after index).step.1 = .ok moves[index]) :
    let session := (start table ({ inner := source } : Recorded σ)).after moves.length
    let trees := session.stack.trees
    (ParseTree.postorderAll trees).length = moves.length ∧
    Builds table moves (ParseTree.leavesAll trees) (ParseTree.postorderAll trees) ∧
    session.source.pulled = ParseTree.leavesAll trees ++ session.lookahead.toList ∧
    TokenSource.take source session.source.pulled.length =
      (session.source.pulled, session.source.inner) ∧
    (session.lookahead.isSome → ∃ index state, moves.getLast? = some (.reduced index state)) ∧
    ∀ tree, session.step.1 = .ok (.accepted tree) →
      tree.postorder = ParseTree.postorderAll trees ∧
      ∃ last, session.step.2.source.pulled = tree.leaves ++ [last] := by
  intro session trees
  have hunfinished : session.finished = false :=
    unfinished_of_quiet rfl quiet answers _ (Nat.le_refl _)
  have hstart : Accounts (start table ({ inner := source } : Recorded σ)) := rfl
  have haccounts : Accounts session :=
    after_induction (fun _ => Accounts.step) hstart _ hunfinished
  obtain ⟨found, hlength, hfound, hbuilds⟩ := builds_after table _ _ hunfinished
  have hmoves : found = moves := by
    refine List.ext_getElem hlength fun index hleft hright => ?_
    exact Except.ok.inj ((hfound index hleft).symm.trans (answers index hright))
  rw [hmoves] at hbuilds
  refine ⟨hbuilds.length_eq, hbuilds, haccounts, take_pulled table source _ hunfinished,
    buffered_after_reduction rfl rfl quiet answers, ?_⟩
  intro tree haccepts
  obtain ⟨htrees, hpulled⟩ := accepting_step hunfinished haccounts haccepts
  refine ⟨?_, _, hpulled⟩
  change tree.postorder = ParseTree.postorderAll session.stack.trees
  rw [htrees, ParseTree.postorderAll, ParseTree.postorderAll, List.append_nil]

/-- A table with an empty rule, by which it builds a node over nothing in front of an accept. -/
def emptyRuleTable : Table :=
  ⟨[⟨.block, 2, []⟩, ⟨.alternative, 0, []⟩],
    [⟨[(.prog, .shift 1)], [(.block, 3)]⟩, ⟨[(.done, .reduce 1)], [(.alternative, 2)]⟩,
      ⟨[(.done, .reduce 0)], []⟩, ⟨[(.done, .accept)], []⟩]⟩

/-- The token behind the empty node stays in the buffer until the accept. -/
theorem postorder_is_trace_empty_rule :
    let moves : List Step := [.shifted 1, .reduced 1 2, .reduced 0 3]
    let session := (start emptyRuleTable
      ({ inner := Script.ofList [.bare .prog 1, .bare .done 2] } : Recorded Script)).after 3
    (∀ tree, .accepted tree ∉ moves) ∧
    Builds emptyRuleTable moves [.bare .prog 1] (ParseTree.postorderAll session.stack.trees) ∧
    session.source.pulled = [.bare .prog 1, .bare .done 2] ∧
    ∃ tree, session.step.1 = .ok (.accepted tree) ∧
      tree.postorder = [.leaf (.bare .prog 1), .node .alternative 0, .node .block 2] := by
  intro moves session
  have hquiet : ∀ tree, .accepted tree ∉ moves := by simp [moves]
  have hanswers : ∀ index (lt : index < moves.length), ((start emptyRuleTable
      ({ inner := Script.ofList [.bare .prog 1, .bare .done 2] } : Recorded Script)).after
        index).step.1 = .ok moves[index]
    | 0, _ => rfl
    | 1, _ => rfl
    | 2, _ => rfl
  obtain ⟨-, hbuilds, hpulled, -, -, haccept⟩ :=
    postorder_is_trace emptyRuleTable _ hquiet hanswers
  have hanswer : session.step.1 = .ok (.accepted
      (.node .block [.leaf (.bare .prog 1), .node .alternative []])) := rfl
  exact ⟨hquiet, hbuilds, hpulled, _, hanswer, (haccept _ hanswer).1⟩

end Session

end ShiftReduce
