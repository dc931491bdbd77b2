import ShiftReduce.Language.States
import ShiftReduce.Proofs.Pulled

/-!
Sessions in lockstep. Take two sources whose first tokens agree up to a change that keeps kinds. As
long as no more than these tokens have been pulled, sessions over the two sources have pulled the
same tokens up to that change, hold the same and answer the same: a step looks at what is in the
buffer, or pulls the next token there, and at nothing behind it. What follows the last token pulled
never plays a part, whatever the table.
-/

namespace ShiftReduce

namespace Session

variable {σ τ : Type} [TokenSource σ] [TokenSource τ]

/-! ### What has been pulled -/

theorem pulled_peek (session : Session (Recorded σ)) :
    session.source.pulled <+: session.peek.2.source.pulled := by
  obtain ⟨table, source, stack, _ | token, line, finished⟩ := session
  · exact List.prefix_append _ _
  · exact List.prefix_refl _

/-- The record of a session only grows. -/
theorem pulled_step (session : Session (Recorded σ)) :
    session.source.pulled <+: session.step.2.source.pulled := by
  cases hfin : session.finished with
  | true => simp [step_of_finished hfin]
  | false =>
    rw [source_step hfin]
    exact pulled_peek session

theorem pulled_prefix_run (limit : Nat) (session : Session (Recorded σ)) :
    session.source.pulled <+: (session.run limit).2.source.pulled := by
  induction limit generalizing session with
  | zero => exact List.prefix_refl _
  | succ limit ih =>
    rw [run_succ]
    split
    · exact (pulled_step session).trans (ih session.step.2)
    · exact pulled_step session

/-- A session is on the line of the last token in its record. -/
def OnLastLine (session : Session (Recorded σ)) : Prop :=
  session.line = (session.source.pulled.getLast?.map Token.line).getD 1

theorem OnLastLine.peek {session : Session (Recorded σ)} (onLine : OnLastLine session) :
    OnLastLine session.peek.2 := by
  obtain ⟨table, source, stack, _ | token, line, finished⟩ := session
  · change _ = ((source.pulled ++ [_]).getLast?.map Token.line).getD 1
    rw [List.getLast?_concat]
    rfl
  · exact onLine

theorem OnLastLine.after {session : Session (Recorded σ)} (onLine : OnLastLine session) (n : Nat) :
    OnLastLine (session.after n) := by
  induction n generalizing session with
  | zero => exact onLine
  | succ n ih =>
    refine ih ?_
    cases hfin : session.finished with
    | true =>
      rw [step_of_finished hfin]
      exact onLine
    | false =>
      rw [OnLastLine, line_step hfin, source_step hfin]
      exact onLine.peek

/-! ### Two sessions -/

/-- Two sessions that hold the same and have pulled the same up to `f`, and whose sources go on the
same up to `f` for what is left of the first `count` tokens. -/
structure Lockstep (f : Token → Token) (count : Nat) (left : Session (Recorded σ))
    (right : Session (Recorded τ)) : Prop where
  holds : left.relabel f = right.relabel f
  pulled : left.source.pulled.map f = right.source.pulled.map f
  ahead : (TokenSource.take left.source.inner (count - left.source.pulled.length)).1.map f =
    (TokenSource.take right.source.inner (count - left.source.pulled.length)).1.map f

namespace Lockstep

variable {f : Token → Token} {count : Nat} {left : Session (Recorded σ)}
  {right : Session (Recorded τ)}

theorem start (table : Table) {source : σ} {other : τ}
    (agree : (TokenSource.take source count).1.map f = (TokenSource.take other count).1.map f) :
    Lockstep f count (.start table ({ inner := source } : Recorded σ))
      (.start table ({ inner := other } : Recorded τ)) :=
  ⟨rfl, rfl, agree⟩

/-- Looking at the next token, the sessions see the same up to `f`. -/
theorem peek (lockstep : Lockstep f count left right)
    (within : left.peek.2.source.pulled.length ≤ count) :
    f left.peek.1 = f right.peek.1 ∧ Lockstep f count left.peek.2 right.peek.2 := by
  obtain ⟨holds, pulled, ahead⟩ := lockstep
  obtain ⟨table, ⟨inner, record⟩, stack, lookahead, line, finished⟩ := left
  obtain ⟨table', ⟨inner', record'⟩, stack', lookahead', line', finished'⟩ := right
  have hbuffer : lookahead.map f = lookahead'.map f := congrArg Session.lookahead holds
  cases lookahead with
  | some token =>
    cases lookahead' with
    | none => cases hbuffer
    | some other => exact ⟨Option.some.inj hbuffer, holds, pulled, ahead⟩
  | none =>
    cases lookahead' with
    | some other => cases hbuffer
    | none =>
      change (record ++ [(TokenSource.next inner).1]).length ≤ count at within
      rw [List.length_append, List.length_singleton] at within
      obtain ⟨rest, hrest⟩ : ∃ rest, count - record.length = rest + 1 :=
        ⟨count - record.length - 1, by omega⟩
      change (TokenSource.take inner (count - record.length)).1.map f =
        (TokenSource.take inner' (count - record.length)).1.map f at ahead
      rw [hrest, TokenSource.take, TokenSource.take, List.map_cons, List.map_cons] at ahead
      obtain ⟨hnext, hahead⟩ := List.cons.inj ahead
      refine ⟨hnext, ?_, ?_, ?_⟩
      · have hstack : stack.relabel f = stack'.relabel f := congrArg Session.stack holds
        have htable : table = table' := congrArg Session.table holds
        have hfinished : finished = finished' := congrArg Session.finished holds
        change (⟨table, (), stack.relabel f, some (f (TokenSource.next inner).1), 1, finished⟩ :
          Session Unit) = ⟨table', (), stack'.relabel f, some (f (TokenSource.next inner').1), 1,
            finished'⟩
        rw [hstack, htable, hfinished, hnext]
      · change (record ++ [(TokenSource.next inner).1]).map f =
          (record' ++ [(TokenSource.next inner').1]).map f
        rw [List.map_append, List.map_append, List.map_singleton, List.map_singleton, hnext]
        exact congrArg (· ++ _) pulled
      · change (TokenSource.take (TokenSource.next inner).2
            (count - (record ++ [(TokenSource.next inner).1]).length)).1.map f =
          (TokenSource.take (TokenSource.next inner').2
            (count - (record ++ [(TokenSource.next inner).1]).length)).1.map f
        rw [List.length_append, List.length_singleton,
          show count - (record.length + 1) = rest by omega]
        exact hahead

/-- A step that pulls none but the tokens known to agree is answered the same up to `f`. -/
theorem step (keeps : ∀ token, (f token).kind = token.kind)
    (lockstep : Lockstep f count left right)
    (within : left.step.2.source.pulled.length ≤ count) :
    relabelAnswer f left.step.1 = relabelAnswer f right.step.1 ∧
      Lockstep f count left.step.2 right.step.2 := by
  have hfinished : left.finished = right.finished := congrArg Session.finished lockstep.holds
  cases hfin : left.finished with
  | true =>
    rw [step_of_finished hfin, step_of_finished (hfinished.symm.trans hfin)]
    exact ⟨rfl, lockstep⟩
  | false =>
    have hright := hfinished.symm.trans hfin
    rw [source_step hfin] at within
    obtain ⟨htoken, hpeek⟩ := lockstep.peek within
    have hmove := ((effect_step hfin).relabel keeps).eq_move
    have hmove' := ((effect_step hright).relabel keeps).eq_move
    rw [hpeek.holds, htoken, hmove'] at hmove
    refine ⟨(congrArg Prod.fst hmove).symm, (congrArg Prod.snd hmove).symm, ?_, ?_⟩
    · rw [source_step hfin, source_step hright]
      exact hpeek.pulled
    · rw [source_step hfin, source_step hright]
      exact hpeek.ahead

/-- Steps that pull none but the tokens known to agree are answered the same up to `f`. -/
theorem after (keeps : ∀ token, (f token).kind = token.kind)
    (lockstep : Lockstep f count left right) {n : Nat}
    (within : (left.after n).source.pulled.length ≤ count) :
    Lockstep f count (left.after n) (right.after n) ∧
      ∀ index < n, relabelAnswer f (left.after index).step.1 =
        relabelAnswer f (right.after index).step.1 := by
  induction n with
  | zero => exact ⟨lockstep, fun _ h => absurd h (Nat.not_lt_zero _)⟩
  | succ n ih =>
    rw [after_succ] at within
    obtain ⟨hafter, hanswers⟩ := ih (Nat.le_trans (pulled_step _).length_le within)
    obtain ⟨hanswer, hnext⟩ := hafter.step keeps within
    refine ⟨?_, ?_⟩
    · rw [after_succ, after_succ]
      exact hnext
    · intro index hindex
      rcases Nat.lt_succ_iff_lt_or_eq.mp hindex with hlt | rfl
      · exact hanswers index hlt
      · exact hanswer

/-- A run that pulls none but the tokens known to agree ends the same up to `f`. -/
theorem run (keeps : ∀ token, (f token).kind = token.kind) {limit : Nat}
    (lockstep : Lockstep f count left right)
    (within : (left.run limit).2.source.pulled.length ≤ count) :
    relabelOutcome f (left.run limit).1 = relabelOutcome f (right.run limit).1 := by
  induction limit generalizing left right with
  | zero => rfl
  | succ limit ih =>
    rw [run_succ] at within
    rw [run_succ, run_succ]
    by_cases hleft : outcomeOf left.step.1 = .unfinished
    · rw [if_pos hleft] at within
      obtain ⟨hanswer, hnext⟩ :=
        lockstep.step keeps (Nat.le_trans (pulled_prefix_run limit _).length_le within)
      rw [if_pos hleft, if_pos ((outcome_of_answers hanswer).2.mp hleft)]
      exact ih hnext within
    · rw [if_neg hleft] at within
      obtain ⟨houtcome, hends⟩ := outcome_of_answers (lockstep.step keeps within).1
      rw [if_neg hleft, if_neg fun h => hleft (hends.mpr h)]
      exact houtcome

end Lockstep

/-! ### What a session sees -/

theorem relabelAnswer_id (answer : Except ParseError Step) : relabelAnswer id answer = answer := by
  obtain ⟨_ | _ | _⟩ | ⟨_ | _ | tree⟩ := answer <;> try rfl
  rw [relabelAnswer, ParseTree.relabel_id]

/-- Over sources that begin alike in kind sessions behave alike, but for the texts and lines of
tokens, as long as they pull no more than that beginning. -/
theorem same_kinds_same_moves (table : Table) (source : σ) (other : τ) {count n : Nat}
    (kinds : (TokenSource.take source count).1.map Token.kind =
      (TokenSource.take other count).1.map Token.kind)
    (within : ((start table ({ inner := source } : Recorded σ)).after n).source.pulled.length ≤
      count) :
    let left := start table ({ inner := source } : Recorded σ)
    let right := start table ({ inner := other } : Recorded τ)
    let same := (TokenSource.take source count).1 = (TokenSource.take other count).1
    (∀ index < n,
      relabelAnswer Token.kindOnly (left.after index).step.1 =
        relabelAnswer Token.kindOnly (right.after index).step.1 ∧
      (same → (left.after index).step.1 = (right.after index).step.1)) ∧
    (left.after n).source.pulled.length = (right.after n).source.pulled.length ∧
    (left.after n).relabel Token.kindOnly = (right.after n).relabel Token.kindOnly ∧
    (same → (left.after n).source.pulled = (right.after n).source.pulled ∧
      (left.after n).stack = (right.after n).stack ∧
      (left.after n).lookahead = (right.after n).lookahead ∧
      (left.after n).line = (right.after n).line ∧
      (left.after n).finished = (right.after n).finished) ∧
    ∀ limit, (left.run limit).2.source.pulled.length ≤ count →
      relabelOutcome Token.kindOnly (left.run limit).1 =
        relabelOutcome Token.kindOnly (right.run limit).1 ∧
      (same → (left.run limit).1 = (right.run limit).1) := by
  intro left right same
  -- The sessions are compared twice, by kinds alone and, for the same tokens, by tokens as they are.
  have hkinds : Lockstep Token.kindOnly count left right := by
    have hblank := congrArg (List.map fun kind => Token.bare kind 0) kinds
    rw [List.map_map, List.map_map] at hblank
    exact .start table hblank
  have htokens : same → Lockstep id count left right := fun h => .start table (by rw [h])
  have hkeeps : ∀ token : Token, token.kindOnly.kind = token.kind := fun _ => rfl
  have hid : ∀ token : Token, (id token).kind = token.kind := fun _ => rfl
  obtain ⟨hafter, hanswers⟩ := hkinds.after hkeeps within
  refine ⟨?_, ?_, hafter.holds, ?_, ?_⟩
  · -- answers
    intro index hindex
    refine ⟨hanswers index hindex, fun h => ?_⟩
    have hanswer := ((htokens h).after hid within).2 index hindex
    rw [relabelAnswer_id, relabelAnswer_id] at hanswer
    exact hanswer
  · have hpulled := congrArg List.length hafter.pulled
    rw [List.length_map, List.length_map] at hpulled
    exact hpulled
  · -- all that can be seen of a session; its line is that of the last token pulled
    intro h
    obtain ⟨hsame, -⟩ := (htokens h).after hid within
    have hpulled := hsame.pulled
    rw [List.map_id, List.map_id] at hpulled
    have hleft : OnLastLine left := rfl
    have hright : OnLastLine right := rfl
    have hlookahead := congrArg Session.lookahead hsame.holds
    rw [relabel, relabel, Option.map_id] at hlookahead
    refine ⟨hpulled, stack_eq_of_relabel hsame.holds, hlookahead, ?_,
      congrArg Session.finished hsame.holds⟩
    rw [hleft.after n, hright.after n, hpulled]
  · -- runs
    intro limit hlimit
    refine ⟨hkinds.run hkeeps hlimit, fun h => ?_⟩
    have houtcome := (htokens h).run hid hlimit
    rw [relabelOutcome_id, relabelOutcome_id] at houtcome
    exact houtcome

/-- Two inputs that go wrong at their third tokens, with other names, on other lines, and with other
tokens behind. -/
theorem same_kinds_same_moves_wrong :
    let tokens : List Token :=
      [.bare .prog 1, ⟨.ident, some "a", 1⟩, .bare .semicolon 2, .bare .done 2]
    let others : List Token := [.bare .prog 4, ⟨.ident, some "b", 5⟩, .bare .semicolon 6]
    let left := start Language.table ({ inner := Script.ofList tokens } : Recorded Script)
    let right := start Language.table ({ inner := Script.ofList others } : Recorded Script)
    (left.after 4).source.pulled.length = 3 ∧ (right.after 4).source.pulled.length = 3 ∧
    relabelAnswer Token.kindOnly (left.after 2).step.1 =
      relabelAnswer Token.kindOnly (right.after 2).step.1 ∧
    (left.run 4).1 = .failed (.unexpected (.bare .semicolon 2) [.colon]) ∧
    relabelOutcome Token.kindOnly (right.run 4).1 =
      .failed (.unexpected (.bare .semicolon 0) [.colon]) := by
  intro tokens others
  have hkinds : (TokenSource.take (Script.ofList tokens) 3).1.map Token.kind =
      (TokenSource.take (Script.ofList others) 3).1.map Token.kind := rfl
  have hpulled : ((start Language.table
      ({ inner := Script.ofList tokens } : Recorded Script)).after 4).source.pulled.length = 3 := by
    decide +kernel
  have hwithin : ((start Language.table
      ({ inner := Script.ofList tokens } : Recorded Script)).run 4).2.source.pulled.length ≤ 3 := by
    decide +kernel
  have hrun : ((start Language.table
      ({ inner := Script.ofList tokens } : Recorded Script)).run 4).1 =
      .failed (.unexpected (.bare .semicolon 2) [.colon]) := by
    decide +kernel
  obtain ⟨hanswers, hlength, -, -, hruns⟩ :=
    same_kinds_same_moves Language.table _ _ hkinds (Nat.le_of_eq hpulled)
  have hother := (hruns 4 hwithin).1
  rw [hrun] at hother
  exact ⟨hpulled, hlength.symm.trans hpulled, (hanswers 2 (by decide)).1, hrun, hother.symm⟩

end Session

end ShiftReduce
