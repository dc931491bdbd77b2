import ShiftReduce.Proofs.Effect

/-!
Runs of a session. What holds at the start and is kept by every step that leaves the session
unfinished holds as long as it is unfinished. A run ends with the first step that neither shifts
nor reduces, and steps granted beyond that one change nothing. The tokens that a run has shifted
are at every moment the leaves of the trees on its stack.
-/

namespace ShiftReduce

namespace Session

variable {σ : Type}

/-! ### The buffered token -/

section Peek

variable [TokenSource σ]

@[simp] theorem peek_table (session : Session σ) : session.peek.2.table = session.table := by
  rw [peek]
  split <;> rfl

@[simp] theorem peek_stack (session : Session σ) : session.peek.2.stack = session.stack := by
  rw [peek]
  split <;> rfl

@[simp] theorem peek_finished (session : Session σ) :
    session.peek.2.finished = session.finished := by
  rw [peek]
  split <;> rfl

@[simp] theorem peek_lookahead (session : Session σ) :
    session.peek.2.lookahead = some session.peek.1 := by
  rw [peek]
  split
  · assumption
  · rfl

theorem step_of_finished {session : Session σ} (finished : session.finished = true) :
    session.step = (.error .finished, session) := by
  rw [step, if_pos finished]

theorem step_of_unfinished {session : Session σ} (unfinished : session.finished = false) :
    session.step = session.peek.2.move session.peek.1 := by
  rw [step, if_neg (by rw [unfinished]; exact Bool.false_ne_true)]

/-- The effect of a step on an unfinished session. -/
theorem effect_step {session : Session σ} (unfinished : session.finished = false) :
    Effect session.peek.2 session.peek.1 session.step := by
  rw [step_of_unfinished unfinished]
  exact effect_move _ _

end Peek

/-! ### Repeated steps -/

section After

variable [TokenSource σ]

theorem after_add (session : Session σ) (m n : Nat) :
    session.after (n + m) = (session.after n).after m := by
  induction n generalizing session with
  | zero => rw [Nat.zero_add, after]
  | succ n ih => rw [Nat.add_right_comm, after, after, ih]

theorem after_succ (session : Session σ) (n : Nat) :
    session.after (n + 1) = (session.after n).step.2 := by
  rw [after_add session 1 n, after, after]

theorem after_of_finished {session : Session σ} (finished : session.finished = true) (n : Nat) :
    session.after n = session := by
  induction n with
  | zero => rfl
  | succ n ih => rw [after, step_of_finished finished, ih]

/-- Tokens are pulled by looking at the next one and by nothing else. -/
theorem source_step {session : Session σ} (unfinished : session.finished = false) :
    session.step.2.source = session.peek.2.source := by
  have heffect := effect_step unfinished
  generalize session.step = result at heffect ⊢
  cases heffect <;> rfl

/-- The line changes by looking at the next token and by nothing else. -/
theorem line_step {session : Session σ} (unfinished : session.finished = false) :
    session.step.2.line = session.peek.2.line := by
  have heffect := effect_step unfinished
  generalize session.step = result at heffect ⊢
  cases heffect <;> rfl

/-- A session that a step leaves unfinished was unfinished before. -/
theorem unfinished_of_step {session : Session σ} (unfinished : session.step.2.finished = false) :
    session.finished = false := by
  cases hfin : session.finished with
  | false => rfl
  | true =>
    rw [step_of_finished hfin, hfin] at unfinished
    exact unfinished

/-- A step that leaves the session unfinished has shifted the next token or reduced. -/
theorem step_cases {session : Session σ} (unfinished : session.step.2.finished = false) :
    (∃ state, session.table.action session.stack.topState session.peek.1.kind = .shift state ∧
      session.step = (.ok (.shifted state), session.peek.2.shift session.peek.1 state)) ∨
    ∃ index rule children below state,
      session.table.action session.stack.topState session.peek.1.kind = .reduce index ∧
      session.table.rule? index = some rule ∧
      session.stack.popMany rule.arity = (.ok children, below) ∧
      session.table.goto? below.topState rule.head = some state ∧
      session.step = (.ok (.reduced index state),
        { session.peek.2 with stack := below.push state (some (.node rule.head children)) }) := by
  have heffect : Effect session.peek.2 session.peek.1 (session.step.1, session.step.2) :=
    effect_step (unfinished_of_step unfinished)
  obtain ⟨state, haction, hanswer, hnext⟩ | ⟨index, rule, children, below, state, haction, hlookup,
      hpops, hgoto, hanswer, hnext⟩ := heffect.unfinished unfinished
  · rw [peek_table, peek_stack] at haction
    exact Or.inl ⟨state, haction, Prod.ext hanswer hnext⟩
  · rw [peek_table] at haction hlookup hgoto
    rw [peek_stack] at haction hpops
    exact Or.inr ⟨index, rule, children, below, state, haction, hlookup, hpops, hgoto,
      Prod.ext hanswer hnext⟩

theorem unfinished_of_after {session : Session σ} {n : Nat}
    (unfinished : (session.after n).finished = false) : session.finished = false := by
  cases hfin : session.finished with
  | false => rfl
  | true =>
    rw [after_of_finished hfin n, hfin] at unfinished
    exact unfinished

theorem unfinished_of_le {session : Session σ} {m n : Nat} (le : m ≤ n)
    (unfinished : (session.after n).finished = false) : (session.after m).finished = false := by
  obtain ⟨more, rfl⟩ := Nat.exists_eq_add_of_le le
  rw [after_add] at unfinished
  exact unfinished_of_after unfinished

/-- What every step keeps that leaves the session unfinished holds of all unfinished sessions. -/
theorem after_induction {P : Session σ → Prop}
    (keep : ∀ session : Session σ, session.step.2.finished = false → P session → P session.step.2)
    {session : Session σ} (base : P session) (n : Nat)
    (unfinished : (session.after n).finished = false) : P (session.after n) := by
  induction n with
  | zero => exact base
  | succ n ih =>
    rw [after_succ] at unfinished ⊢
    exact keep _ unfinished (ih (unfinished_of_step unfinished))

theorem table_step (session : Session σ) : session.step.2.table = session.table := by
  cases hfin : session.finished with
  | true => rw [step_of_finished hfin]
  | false =>
    have heffect := effect_step hfin
    rw [← peek_table session]
    generalize session.step = result at heffect ⊢
    cases heffect <;> rfl

@[simp] theorem table_after (session : Session σ) (n : Nat) :
    (session.after n).table = session.table := by
  induction n generalizing session with
  | zero => rfl
  | succ n ih => rw [after, ih, table_step]

end After

/-! ### Runs -/

/-- How the answer of one step ends a run, if it does. -/
def outcomeOf : Except ParseError Step → Outcome
  | .error error => .failed error
  | .ok (.accepted tree) => .accepted tree
  | .ok _ => .unfinished

theorem outcomeOf_eq_failed {answer : Except ParseError Step} {error : ParseError} :
    outcomeOf answer = .failed error ↔ answer = .error error := by
  obtain found | ⟨_ | _ | _⟩ := answer <;> simp [outcomeOf]

theorem outcomeOf_eq_accepted {answer : Except ParseError Step} {tree : ParseTree} :
    outcomeOf answer = .accepted tree ↔ answer = .ok (.accepted tree) := by
  obtain found | ⟨_ | _ | _⟩ := answer <;> simp [outcomeOf]

section Run

variable [TokenSource σ]

theorem outcomeOf_step_eq_unfinished {session : Session σ} (unfinished : session.finished = false) :
    outcomeOf session.step.1 = .unfinished ↔ session.step.2.finished = false := by
  have heffect := effect_step unfinished
  have hpeek : session.peek.2.finished = false := by rw [peek_finished, unfinished]
  generalize session.step = result at heffect
  cases heffect with
  | shift action => exact iff_of_true rfl hpeek
  | reduce action lookup pops goto => exact iff_of_true rfl hpeek
  | accept action takes => exact iff_of_false nofun nofun
  | reject action => exact iff_of_false nofun nofun
  | unknownRule action lookup => exact iff_of_false nofun nofun
  | popFault action lookup pops => exact iff_of_false nofun nofun
  | missingGoto action lookup pops goto => exact iff_of_false nofun nofun
  | takeFault action takes => exact iff_of_false nofun nofun

/-- A run looks at one answer and goes on if that does not end it. -/
theorem run_succ (session : Session σ) (limit : Nat) :
    session.run (limit + 1) =
      if outcomeOf session.step.1 = .unfinished then session.step.2.run limit
      else (outcomeOf session.step.1, session.step.2) := by
  rw [run]
  split <;> rename_i hstep
  · rw [hstep, if_neg (by simp [outcomeOf]), outcomeOf]
  · rw [hstep, if_neg (by simp [outcomeOf]), outcomeOf]
  · rename_i move next hmove
    rw [hstep]
    cases move with
    | shifted state => exact (if_pos rfl).symm
    | reduced index state => exact (if_pos rfl).symm
    | accepted tree => exact absurd rfl (hmove tree)

/-- A run goes on as if begun where its first steps lead. -/
theorem run_add (session : Session σ) (limit n : Nat)
    (unfinished : (session.after n).finished = false) :
    session.run (n + limit) = (session.after n).run limit := by
  induction n generalizing session with
  | zero => rw [Nat.zero_add, after]
  | succ n ih =>
    rw [after] at unfinished ⊢
    have hstep := unfinished_of_after unfinished
    have hgoes : outcomeOf session.step.1 = .unfinished :=
      (outcomeOf_step_eq_unfinished (unfinished_of_step hstep)).mpr hstep
    rw [Nat.add_right_comm, run_succ, if_pos hgoes, ih _ unfinished]

/-- A run that ends has made steps that left it unfinished, and then one whose answer is its
outcome. -/
theorem run_ends {limit : Nat} {session : Session σ} (unfinished : session.finished = false)
    (ends : (session.run limit).1 ≠ .unfinished) :
    ∃ n < limit, (session.after n).finished = false ∧
      session.run limit = (outcomeOf (session.after n).step.1, (session.after n).step.2) ∧
      (session.after n).step.2.finished = true := by
  induction limit generalizing session with
  | zero => exact absurd rfl ends
  | succ limit ih =>
    rw [run_succ] at ends ⊢
    by_cases hstep : outcomeOf session.step.1 = .unfinished
    · rw [if_pos hstep] at ends ⊢
      have hnext := (outcomeOf_step_eq_unfinished unfinished).mp hstep
      obtain ⟨n, hn, hlast⟩ := ih hnext ends
      exact ⟨n + 1, Nat.succ_lt_succ hn, hlast⟩
    · rw [if_neg hstep]
      refine ⟨0, Nat.succ_pos limit, unfinished, rfl, ?_⟩
      rw [outcomeOf_step_eq_unfinished unfinished, Bool.not_eq_false] at hstep
      exact hstep

/-- A session that has ended answers a run like a step, and stays as it is. -/
theorem run_of_finished {session : Session σ} (finished : session.finished = true) (limit : Nat) :
    session.run (limit + 1) = (.failed .finished, session) := by
  rw [run_succ, step_of_finished finished]
  exact if_neg nofun

/-- The outcome of a run that ends is the answer of one of its steps. -/
theorem exists_run_eq {session : Session σ} {limit : Nat}
    (ends : (session.run limit).1 ≠ .unfinished) :
    ∃ n, session.run limit =
      (outcomeOf (session.after n).step.1, (session.after n).step.2) := by
  cases hfin : session.finished with
  | false =>
    obtain ⟨n, -, -, hrun, -⟩ := run_ends hfin ends
    exact ⟨n, hrun⟩
  | true =>
    cases limit with
    | zero => exact absurd rfl ends
    | succ limit =>
      refine ⟨0, ?_⟩
      rw [run_of_finished hfin, after, step_of_finished hfin]
      rfl

/-- Once a run has ended, more steps change nothing. -/
theorem run_eq_of_le {session : Session σ} {limit more : Nat}
    (unfinished : session.finished = false) (ends : (session.run limit).1 ≠ .unfinished)
    (le : limit ≤ more) :
    session.run more = session.run limit := by
  obtain ⟨n, hn, hbefore, hrun, hlast⟩ := run_ends unfinished ends
  obtain ⟨extra, rfl⟩ := Nat.exists_eq_add_of_lt (Nat.lt_of_lt_of_le hn le)
  have hanswer : ¬outcomeOf (session.after n).step.1 = .unfinished := by
    rw [hrun] at ends
    exact ends
  rw [hrun, Nat.add_assoc, run_add session _ n hbefore, run_succ, if_neg hanswer]

end Run

/-! ### Shifted tokens -/

section Shifted

variable [TokenSource σ]

/-- What a step on a token moves onto the stack: the token if its answer is a shift. -/
def shiftedBy (token : Token) : Except ParseError Step → List Token
  | .ok (.shifted _) => [token]
  | _ => []

/-- The tokens that the next steps move onto the stack. -/
def shifted : (count : Nat) → Session σ → List Token
  | 0, _ => []
  | count + 1, session => shiftedBy session.peek.1 session.step.1 ++ shifted count session.step.2

theorem shifted_of_finished {session : Session σ} (finished : session.finished = true) (n : Nat) :
    session.shifted n = [] := by
  induction n with
  | zero => rfl
  | succ n ih =>
    rw [shifted, step_of_finished finished]
    exact ih

theorem shiftedBy_of_ends {answer : Except ParseError Step} (ends : outcomeOf answer ≠ .unfinished)
    (token : Token) : shiftedBy token answer = [] := by
  obtain _ | ⟨_ | _ | _⟩ := answer
  · rfl
  · exact absurd rfl ends
  · rfl
  · rfl

theorem shifted_add (m n : Nat) (session : Session σ) :
    session.shifted (n + m) = session.shifted n ++ (session.after n).shifted m := by
  induction n generalizing session with
  | zero => rw [Nat.zero_add, shifted, after, List.nil_append]
  | succ n ih => rw [Nat.add_right_comm, shifted, shifted, after, ih, List.append_assoc]

theorem shifted_succ (session : Session σ) (n : Nat) :
    session.shifted (n + 1) =
      session.shifted n ++ shiftedBy (session.after n).peek.1 (session.after n).step.1 := by
  have hone : (session.after n).shifted 1 =
      shiftedBy (session.after n).peek.1 (session.after n).step.1 ++ [] := rfl
  rw [shifted_add, hone, List.append_nil]

theorem length_shiftedBy_le (token : Token) (answer : Except ParseError Step) :
    (shiftedBy token answer).length ≤ 1 := by
  obtain _ | ⟨_ | _ | _⟩ := answer <;> simp [shiftedBy]

theorem length_shifted_mono (session : Session σ) {m n : Nat} (le : m ≤ n) :
    (session.shifted m).length ≤ (session.shifted n).length := by
  obtain ⟨more, rfl⟩ := Nat.exists_eq_add_of_le le
  rw [shifted_add, List.length_append]
  exact Nat.le_add_right _ _

/-- There is a first moment at which a number of tokens has been shifted, since every step shifts
one at most. -/
theorem exists_shifted_eq {session : Session σ} {n count : Nat}
    (le : count ≤ (session.shifted n).length) :
    ∃ m ≤ n, (session.shifted m).length = count ∧ ∀ i < m, (session.shifted i).length < count := by
  induction n with
  | zero =>
    refine ⟨0, Nat.le_refl 0, (Nat.le_zero.mp le).symm, ?_⟩
    exact fun _ h => absurd h (Nat.not_lt_zero _)
  | succ n ih =>
    by_cases hbefore : count ≤ (session.shifted n).length
    · obtain ⟨m, hm, hfirst⟩ := ih hbefore
      exact ⟨m, Nat.le_succ_of_le hm, hfirst⟩
    · refine ⟨n + 1, Nat.le_refl _, ?_, ?_⟩
      · have hone := length_shiftedBy_le (session.after n).peek.1 (session.after n).step.1
        rw [shifted_succ, List.length_append] at le ⊢
        omega
      · intro i hi
        have hlonger := length_shifted_mono session (Nat.le_of_lt_succ hi)
        omega

/-- The step that ends a run shifts nothing, and after it there is nothing to shift. -/
theorem shifted_of_ends {session : Session σ} {n limit : Nat} (lt : n < limit)
    (unfinished : (session.after n).finished = false)
    (ends : (session.after n).step.2.finished = true) :
    session.shifted limit = session.shifted n := by
  obtain ⟨extra, rfl⟩ := Nat.exists_eq_add_of_lt lt
  have hanswer : outcomeOf (session.after n).step.1 ≠ .unfinished := by
    rw [Ne, outcomeOf_step_eq_unfinished unfinished, ends]
    exact nofun
  rw [Nat.add_assoc, shifted_add, shifted, shiftedBy_of_ends hanswer, shifted_of_finished ends,
    List.append_nil, List.append_nil]

/-- A step that leaves the session unfinished adds what it shifts to the leaves on the stack. -/
theorem leaves_step {session : Session σ} (unfinished : session.step.2.finished = false) :
    ParseTree.leavesAll session.step.2.stack.trees =
      ParseTree.leavesAll session.stack.trees ++ shiftedBy session.peek.1 session.step.1 := by
  obtain ⟨state, -, hstep⟩ | ⟨index, rule, children, below, state, -, -, hpops, -, hstep⟩ :=
    step_cases unfinished
  · rw [hstep, shift, Stack.trees_push, peek_stack, ParseTree.leavesAll_append]
    rfl
  · obtain ⟨-, htrees, -⟩ := Stack.popMany_ok hpops
    rw [hstep, Stack.trees_push, htrees, ParseTree.leavesAll_append, ParseTree.leavesAll_append]
    rw [ParseTree.leavesAll, ParseTree.leavesAll, List.append_nil, ParseTree.leaves, shiftedBy,
      List.append_nil]
    exact nofun

/-- The leaves on the stack are what it held before and what has been shifted since. -/
theorem leaves_after (n : Nat) {session : Session σ}
    (unfinished : (session.after n).finished = false) :
    ParseTree.leavesAll (session.after n).stack.trees =
      ParseTree.leavesAll session.stack.trees ++ session.shifted n := by
  induction n generalizing session with
  | zero => rw [after, shifted, List.append_nil]
  | succ n ih =>
    rw [after] at unfinished ⊢
    have hnext := unfinished_of_after unfinished
    rw [ih unfinished, leaves_step hnext, shifted, List.append_assoc]

end Shifted

end Session

end ShiftReduce
