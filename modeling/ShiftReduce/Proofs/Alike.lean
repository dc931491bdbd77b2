import ShiftReduce.Proofs.Upcoming
import ShiftReduce.Tree.Relabel

/-!
Two sessions that see the same tokens. Changing every token by a function that keeps its kind
commutes with every move, since the automaton looks at kinds alone. So two sessions whose stacks
and buffers differ only by such a change, and whose next tokens do too, give answers that differ
only by it, and stay alike for as long as the tokens known to agree last. A source that keeps a
record of what is pulled from it is an example: a session cannot tell it from the source inside.
-/

namespace ShiftReduce

/-! ### Changing every token -/

def StackEntry.relabel (f : Token → Token) (entry : StackEntry) : StackEntry :=
  ⟨entry.state, entry.tree.map (ParseTree.relabel f)⟩

def Stack.relabel (f : Token → Token) (stack : Stack) : Stack :=
  ⟨stack.above.map (StackEntry.relabel f)⟩

/-- The answer of a step with every token in it changed by `f`. -/
def relabelAnswer (f : Token → Token) : Except ParseError Step → Except ParseError Step
  | .error (.unexpected token expected) => .error (.unexpected (f token) expected)
  | .ok (.accepted tree) => .ok (.accepted (tree.relabel f))
  | answer => answer

namespace Stack

variable (f : Token → Token)

@[simp] theorem depth_relabel (stack : Stack) : (stack.relabel f).depth = stack.depth :=
  List.length_map _

@[simp] theorem topState_relabel (stack : Stack) :
    (stack.relabel f).topState = stack.topState := by
  obtain ⟨_ | ⟨entry, above⟩⟩ := stack <;> rfl

theorem subtrees_relabel : ∀ entries : List StackEntry,
    subtrees (entries.map (StackEntry.relabel f)) =
      (subtrees entries).map (List.map (ParseTree.relabel f))
  | [] => rfl
  | ⟨_, none⟩ :: _ => rfl
  | ⟨state, some tree⟩ :: entries => by
    rw [List.map_cons, StackEntry.relabel, Option.map_some, subtrees, subtrees,
      subtrees_relabel entries]
    cases subtrees entries <;> rfl

theorem popMany_relabel (stack : Stack) (count : Nat) :
    (stack.relabel f).popMany count =
      ((stack.popMany count).1.map (List.map (ParseTree.relabel f)),
        (stack.popMany count).2.relabel f) := by
  rw [popMany, popMany, depth_relabel]
  split
  · rfl
  · simp only [relabel, ← List.map_take, ← List.map_drop, ← List.map_reverse, subtrees_relabel]

theorem takeResult_relabel (stack : Stack) :
    (stack.relabel f).takeResult =
      (stack.takeResult.1.map (ParseTree.relabel f), stack.takeResult.2.relabel f) := by
  obtain ⟨_ | ⟨⟨state, _ | tree⟩, _ | ⟨entry, above⟩⟩⟩ := stack
  · rfl
  · rfl
  · simp [relabel, takeResult, StackEntry.relabel, Except.map]
  · rfl
  · simp [relabel, takeResult, StackEntry.relabel, Except.map]

end Stack

namespace Session

variable {σ τ : Type}

/-- What a session holds with every token changed by `f`, without its source and its line. -/
def relabel (f : Token → Token) (session : Session σ) : Session Unit where
  table := session.table
  source := ()
  stack := session.stack.relabel f
  lookahead := session.lookahead.map f
  finished := session.finished

/-- A move looks at the kind of the token and at no other part of any token. -/
theorem Effect.relabel {f : Token → Token} (keeps : ∀ token, (f token).kind = token.kind)
    {session : Session σ} {token : Token} {result : Except ParseError Step × Session σ}
    (effect : Effect session token result) :
    Effect (session.relabel f) (f token) (relabelAnswer f result.1, result.2.relabel f) := by
  have hpops := Stack.popMany_relabel f session.stack
  have htakes := Stack.takeResult_relabel f session.stack
  have haction : (session.relabel f).table.action (session.relabel f).stack.topState
      (f token).kind = session.table.action session.stack.topState token.kind := by
    rw [keeps, Session.relabel, Stack.topState_relabel]
  cases effect with
  | shift action => exact .shift (haction.trans action)
  | @reduce index state rule children below action lookup pops goto =>
    have hpop := hpops rule.arity
    rw [pops] at hpop
    rw [← Stack.topState_relabel f] at goto
    have heffect := Effect.reduce (haction.trans action) lookup hpop goto
    rw [← ParseTree.relabelAll_eq_map] at heffect
    exact heffect
  | accept action takes =>
    rw [takes] at htakes
    exact .accept (haction.trans action) htakes
  | reject action =>
    have heffect := Effect.reject (haction.trans action)
    rw [Session.reject, Session.relabel, Stack.topState_relabel] at heffect
    exact heffect
  | unknownRule action lookup => exact .unknownRule (haction.trans action) lookup
  | @popFault index rule fault below action lookup pops =>
    have hpop := hpops rule.arity
    rw [pops] at hpop
    exact .popFault (haction.trans action) lookup hpop
  | @missingGoto index rule children below action lookup pops goto =>
    have hpop := hpops rule.arity
    rw [pops] at hpop
    rw [← Stack.topState_relabel f] at goto
    have heffect := Effect.missingGoto (haction.trans action) lookup hpop goto
    rw [Stack.topState_relabel] at heffect
    exact heffect
  | takeFault action takes =>
    rw [takes] at htakes
    exact .takeFault (haction.trans action) htakes

/-- Two sessions that hold the same up to `f`, and read the same tokens up to `f` for as many as
are given. -/
structure Alike [TokenSource σ] [TokenSource τ] (f : Token → Token) (count : Nat)
    (left : Session σ) (right : Session τ) : Prop where
  holds : left.relabel f = right.relabel f
  reads : (left.upcoming count).map f = (right.upcoming count).map f

namespace Alike

variable [TokenSource σ] [TokenSource τ] {f : Token → Token} {left : Session σ}
  {right : Session τ}

theorem finished_eq {count : Nat} (alike : Alike f count left right) :
    left.finished = right.finished :=
  congrArg Session.finished alike.holds

/-- Alike sessions look at the same token up to `f`. -/
theorem peek_eq {count : Nat} (alike : Alike f (count + 1) left right) :
    f left.peek.1 = f right.peek.1 := by
  have hreads := alike.reads
  rw [upcoming_succ left 0, upcoming_succ right 0] at hreads
  exact (List.cons.inj hreads).1

theorem peek_holds {count : Nat} (alike : Alike f (count + 1) left right) :
    left.peek.2.relabel f = right.peek.2.relabel f := by
  have hpeek : ∀ {ρ : Type} [TokenSource ρ] (session : Session ρ), session.peek.2.relabel f =
      { session.relabel f with lookahead := some (f session.peek.1) } := by
    intro ρ _ session
    rw [Session.relabel, peek_table, peek_stack, peek_lookahead, peek_finished]
    rfl
  rw [hpeek left, hpeek right, alike.holds, alike.peek_eq]

/-- Alike sessions answer alike and hold the same afterwards. -/
theorem step_eq (keeps : ∀ token, (f token).kind = token.kind) {count : Nat}
    (alike : Alike f (count + 1) left right) :
    relabelAnswer f left.step.1 = relabelAnswer f right.step.1 ∧
      left.step.2.relabel f = right.step.2.relabel f := by
  cases hfin : left.finished with
  | true =>
    rw [step_of_finished hfin, step_of_finished (alike.finished_eq.symm.trans hfin)]
    exact ⟨rfl, alike.holds⟩
  | false =>
    have hleft := ((effect_step hfin).relabel keeps).eq_move
    have hright := ((effect_step (alike.finished_eq.symm.trans hfin)).relabel keeps).eq_move
    rw [alike.peek_holds, alike.peek_eq, hright] at hleft
    exact ⟨(congrArg Prod.fst hleft).symm, (congrArg Prod.snd hleft).symm⟩

theorem shiftedBy_relabelAnswer (token : Token) (answer : Except ParseError Step) :
    shiftedBy (f token) (relabelAnswer f answer) = (shiftedBy token answer).map f := by
  obtain ⟨_ | _ | _⟩ | ⟨_ | _ | _⟩ := answer <;> rfl

/-- What alike sessions shift is the same up to `f`. -/
theorem shiftedBy_eq (keeps : ∀ token, (f token).kind = token.kind) {count : Nat}
    (alike : Alike f (count + 1) left right) :
    (shiftedBy left.peek.1 left.step.1).map f = (shiftedBy right.peek.1 right.step.1).map f := by
  rw [← shiftedBy_relabelAnswer, ← shiftedBy_relabelAnswer, alike.peek_eq, (alike.step_eq keeps).1]

/-- A step that leaves alike sessions unfinished leaves them alike, with the token it has shifted
gone from those that are known to agree. -/
theorem step (keeps : ∀ token, (f token).kind = token.kind) {count : Nat}
    (alike : Alike f ((shiftedBy left.peek.1 left.step.1).length + count) left right)
    (some_left : 0 < (shiftedBy left.peek.1 left.step.1).length + count)
    (unfinished : left.step.2.finished = false) : Alike f count left.step.2 right.step.2 := by
  obtain ⟨total, htotal⟩ := Nat.exists_eq_add_of_lt some_left
  rw [Nat.zero_add] at htotal
  have hnext := alike
  rw [htotal] at hnext
  obtain ⟨-, hholds⟩ := hnext.step_eq keeps
  have hshifted := hnext.shiftedBy_eq keeps
  have hlength := congrArg List.length hshifted
  rw [List.length_map, List.length_map] at hlength
  have hright : right.step.2.finished = false :=
    (congrArg Session.finished hholds).symm.trans unfinished
  have hreads := alike.reads
  rw [upcoming_step unfinished, hlength, upcoming_step hright, List.map_append, List.map_append,
    hshifted] at hreads
  exact ⟨hholds, List.append_cancel_left hreads⟩

/-- As long as alike sessions have shifted less than is known to agree, and up to the step that
shifts the last of it, they stay alike and shift the same tokens up to `f`. -/
theorem after (keeps : ∀ token, (f token).kind = token.kind) {n count : Nat}
    (alike : Alike f ((left.shifted n).length + count) left right)
    (short : ∀ i < n, (left.shifted i).length < (left.shifted n).length + count)
    (unfinished : (left.after n).finished = false) :
    Alike f count (left.after n) (right.after n) ∧
      (left.shifted n).map f = (right.shifted n).map f := by
  induction n generalizing left right with
  | zero =>
    rw [shifted, List.length_nil, Nat.zero_add] at alike
    exact ⟨alike, rfl⟩
  | succ n ih =>
    rw [after] at unfinished
    rw [shifted, List.length_append, Nat.add_assoc] at alike
    have hpos : 0 < (shiftedBy left.peek.1 left.step.1).length +
        ((left.step.2.shifted n).length + count) := by
      have hfirst := short 0 (Nat.succ_pos n)
      rw [shifted, shifted, List.length_append, Nat.add_assoc] at hfirst
      exact hfirst
    have hnext := alike.step keeps hpos (unfinished_of_after unfinished)
    have hshort : ∀ i < n,
        (left.step.2.shifted i).length < (left.step.2.shifted n).length + count := by
      intro i hi
      have hlater := short (i + 1) (Nat.succ_lt_succ hi)
      rw [shifted, shifted, List.length_append, List.length_append] at hlater
      omega
    obtain ⟨hafter, hrest⟩ := ih hnext hshort unfinished
    obtain ⟨total, htotal⟩ := Nat.exists_eq_add_of_lt hpos
    rw [htotal] at alike
    refine ⟨hafter, ?_⟩
    rw [shifted, shifted, List.map_append, List.map_append, alike.shiftedBy_eq keeps, hrest]

end Alike

/-- Alike sessions shift the same tokens up to `f`. -/
theorem shifted_alike [TokenSource σ] [TokenSource τ] {f : Token → Token}
    (keeps : ∀ token, (f token).kind = token.kind) {n : Nat} {left : Session σ}
    {right : Session τ} (alike : Alike f ((left.shifted n).length + 1) left right) :
    (left.shifted n).map f = (right.shifted n).map f := by
  induction n generalizing left right with
  | zero => rfl
  | succ n ih =>
    rw [shifted, List.length_append, Nat.add_assoc] at alike
    have halike := alike
    rw [← Nat.add_assoc] at halike
    have hrest : (left.step.2.shifted n).map f = (right.step.2.shifted n).map f := by
      cases hfin : left.step.2.finished with
      | true =>
        have hright : right.step.2.finished = true :=
          (congrArg Session.finished (halike.step_eq keeps).2).symm.trans hfin
        rw [shifted_of_finished hfin, shifted_of_finished hright]
      | false => exact ih (alike.step keeps (Nat.succ_pos _) hfin)
    rw [shifted, shifted, List.map_append, List.map_append, halike.shiftedBy_eq keeps, hrest]

/-- How a run ended, with every token in it changed by `f`. -/
def relabelOutcome (f : Token → Token) : Outcome → Outcome
  | .failed (.unexpected token expected) => .failed (.unexpected (f token) expected)
  | .accepted tree => .accepted (tree.relabel f)
  | outcome => outcome

theorem outcomeOf_relabelAnswer (f : Token → Token) (answer : Except ParseError Step) :
    outcomeOf (relabelAnswer f answer) = relabelOutcome f (outcomeOf answer) := by
  obtain ⟨_ | _ | _⟩ | ⟨_ | _ | _⟩ := answer <;> rfl

theorem relabelOutcome_eq_unfinished {f : Token → Token} {outcome : Outcome} :
    relabelOutcome f outcome = .unfinished ↔ outcome = .unfinished := by
  obtain _ | ⟨_ | _ | _⟩ | _ := outcome <;> simp [relabelOutcome]

/-- Answers that are the same up to `f` end a run the same up to `f`, or both let it go on. -/
theorem outcome_of_answers {f : Token → Token} {answer other : Except ParseError Step}
    (same : relabelAnswer f answer = relabelAnswer f other) :
    relabelOutcome f (outcomeOf answer) = relabelOutcome f (outcomeOf other) ∧
      (outcomeOf answer = .unfinished ↔ outcomeOf other = .unfinished) := by
  have houtcome := congrArg outcomeOf same
  rw [outcomeOf_relabelAnswer, outcomeOf_relabelAnswer] at houtcome
  refine ⟨houtcome, ?_⟩
  rw [← relabelOutcome_eq_unfinished (f := f), houtcome, relabelOutcome_eq_unfinished]

/-- Alike sessions run alike, if one more of their next tokens agree than the run shifts. -/
theorem run_alike [TokenSource σ] [TokenSource τ] {f : Token → Token}
    (keeps : ∀ token, (f token).kind = token.kind) {limit : Nat} {left : Session σ}
    {right : Session τ} (alike : Alike f ((left.shifted limit).length + 1) left right) :
    relabelOutcome f (left.run limit).1 = relabelOutcome f (right.run limit).1 ∧
      (left.run limit).2.relabel f = (right.run limit).2.relabel f := by
  induction limit generalizing left right with
  | zero => exact ⟨rfl, alike.holds⟩
  | succ limit ih =>
    rw [shifted, List.length_append, Nat.add_assoc] at alike
    have halike := alike
    rw [← Nat.add_assoc] at halike
    obtain ⟨hanswer, hholds⟩ := halike.step_eq keeps
    obtain ⟨houtcome, hends⟩ := outcome_of_answers hanswer
    rw [run_succ, run_succ]
    by_cases hleft : outcomeOf left.step.1 = .unfinished
    · rw [if_pos hleft, if_pos (hends.mp hleft)]
      cases hfin : left.finished with
      | true =>
        rw [step_of_finished hfin] at hleft
        cases hleft
      | false =>
        exact ih (alike.step keeps (Nat.succ_pos _) ((outcomeOf_step_eq_unfinished hfin).mp hleft))
    · rw [if_neg hleft, if_neg fun h => hleft (hends.mpr h)]
      exact ⟨houtcome, hholds⟩

/-- From sources whose first tokens have the same kinds, one more of them than the run shifts, runs
end alike but for the texts and lines of tokens. -/
theorem run_of_kinds [TokenSource σ] [TokenSource τ] (table : Table) {source : σ} {other : τ}
    {limit count : Nat} (enough : count = ((start table source).shifted limit).length + 1)
    (kinds : (TokenSource.take source count).1.map Token.kind =
      (TokenSource.take other count).1.map Token.kind) :
    relabelOutcome Token.kindOnly ((start table source).run limit).1 =
      relabelOutcome Token.kindOnly ((start table other).run limit).1 := by
  have halike : Alike Token.kindOnly count (start table source) (start table other) := by
    refine ⟨rfl, ?_⟩
    have hblank := congrArg (List.map fun kind => Token.bare kind 0) kinds
    rw [List.map_map, List.map_map] at hblank
    rw [upcoming_start, upcoming_start]
    exact hblank
  rw [enough] at halike
  exact (run_alike (f := Token.kindOnly) (fun _ => rfl) halike).1

end Session

end ShiftReduce
