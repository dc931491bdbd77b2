import ShiftReduce.Proofs.Run

/-!
The tokens still to come. What a session reads next is the token in its buffer, if there is one,
and then what its source hands out. Steps take tokens off the front of that sequence in order:
those shifted so far and those upcoming are always the tokens that were upcoming at the start.
-/

namespace ShiftReduce

namespace Session

variable {σ : Type} [TokenSource σ]

/-- The next tokens of a session, as many as asked for. -/
def upcoming (session : Session σ) : Nat → List Token
  | 0 => []
  | count + 1 =>
    match session.lookahead with
    | some token => token :: (TokenSource.take session.source count).1
    | none => (TokenSource.take session.source (count + 1)).1

theorem upcoming_start (table : Table) (source : σ) :
    ∀ count, (start table source).upcoming count = (TokenSource.take source count).1
  | 0 => rfl
  | _ + 1 => rfl

@[simp] theorem upcoming_stack (session : Session σ) (stack : Stack) :
    ∀ count, { session with stack }.upcoming count = session.upcoming count
  | 0 => rfl
  | _ + 1 => rfl

@[simp] theorem upcoming_peek (session : Session σ) (count : Nat) :
    session.peek.2.upcoming count = session.upcoming count := by
  obtain ⟨table, source, stack, lookahead, line, finished⟩ := session
  cases count <;> cases lookahead <;> rfl

/-- The first of the upcoming tokens is the one a shift takes. -/
theorem upcoming_succ (session : Session σ) (state : Nat) (count : Nat) :
    session.upcoming (count + 1) =
      session.peek.1 :: (session.peek.2.shift session.peek.1 state).upcoming count := by
  rw [← upcoming_peek, upcoming, peek_lookahead]
  cases count <;> rfl

/-- A step takes what it shifts off the front of the upcoming tokens. -/
theorem upcoming_step {session : Session σ} (unfinished : session.step.2.finished = false)
    (count : Nat) :
    session.upcoming ((shiftedBy session.peek.1 session.step.1).length + count) =
      shiftedBy session.peek.1 session.step.1 ++ session.step.2.upcoming count := by
  obtain ⟨state, -, hstep⟩ | ⟨index, rule, children, below, state, -, -, -, -, hstep⟩ :=
    step_cases unfinished
  · rw [hstep, shiftedBy, List.length_singleton, Nat.add_comm, upcoming_succ session state]
    rfl
  · rw [hstep]
    change session.upcoming (0 + count) = _
    rw [Nat.zero_add, ← upcoming_peek session]
    exact (upcoming_stack session.peek.2 _ count).symm

/-- Steps take the tokens they shift off the front of the upcoming ones, in order. -/
theorem upcoming_after (n : Nat) {session : Session σ}
    (unfinished : (session.after n).finished = false) (count : Nat) :
    session.upcoming ((session.shifted n).length + count) =
      session.shifted n ++ (session.after n).upcoming count := by
  induction n generalizing session with
  | zero => rw [shifted, List.length_nil, Nat.zero_add, after, List.nil_append]
  | succ n ih =>
    rw [after] at unfinished ⊢
    have hnext := unfinished_of_after unfinished
    rw [shifted, List.length_append, Nat.add_assoc, upcoming_step hnext, ih unfinished,
      List.append_assoc]

/-- What has been shifted are the first tokens of the source. -/
theorem take_shifted {table : Table} {source : σ} {n : Nat}
    (unfinished : ((start table source).after n).finished = false) :
    (TokenSource.take source ((start table source).shifted n).length).1 =
      (start table source).shifted n := by
  have htaken := upcoming_after n unfinished 0
  rw [Nat.add_zero, upcoming_start, upcoming, List.append_nil] at htaken
  exact htaken

/-- A run that ends has shifted the leaves on its stack, and the token it ends on is the next one of
its source. -/
theorem ended_run {table : Table} {source : σ} {limit : Nat}
    (ends : ((start table source).run limit).1 ≠ .unfinished) :
    ∃ n, ((start table source).after n).finished = false ∧
      (start table source).run limit = (outcomeOf ((start table source).after n).step.1,
        ((start table source).after n).step.2) ∧
      ParseTree.leavesAll ((start table source).after n).stack.trees =
        (start table source).shifted limit ∧
      (TokenSource.take source (((start table source).shifted limit).length + 1)).1 =
        (start table source).shifted limit ++ [((start table source).after n).peek.1] := by
  obtain ⟨n, hn, hbefore, hrun, hlast⟩ := run_ends rfl ends
  have hshifted := shifted_of_ends hn hbefore hlast
  refine ⟨n, hbefore, hrun, ?_, ?_⟩
  · rw [leaves_after n hbefore, hshifted]
    rfl
  · rw [hshifted, ← upcoming_start table, upcoming_after n hbefore, upcoming_succ _ 0]
    rfl

end Session

end ShiftReduce
