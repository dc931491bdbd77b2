import ShiftReduce.Table.Normal
import ShiftReduce.Proofs.Run

/-!
Sessions over tables that agree. A move reads an action, a successor, the effect of a rule and,
when it refuses a token, what is expected; tables that agree answer all of it alike. So every move
has the same effect over both, and giving a session the other table commutes with looking at the
next token, with a step and with a run. A table and its normal form are the case in point.
-/

namespace ShiftReduce

namespace Session

variable {σ : Type}

/-- The session as it is, over another table. -/
def withTable (table : Table) (session : Session σ) : Session σ := { session with table }

@[simp] theorem withTable_table (table : Table) (session : Session σ) :
    (session.withTable table).table = table := rfl

@[simp] theorem withTable_stack (table : Table) (session : Session σ) :
    (session.withTable table).stack = session.stack := rfl

@[simp] theorem withTable_finished (table : Table) (session : Session σ) :
    (session.withTable table).finished = session.finished := rfl

@[simp] theorem withTable_start (left right : Table) (source : σ) :
    (start left source).withTable right = start right source := rfl

/-- Every effect is the same over a table that agrees. -/
theorem Effect.withTable {session : Session σ} {table : Table}
    (agrees : session.table.Agrees table) {token : Token}
    {result : Except ParseError Step × Session σ} (effect : Effect session token result) :
    Effect (session.withTable table) token (result.1, result.2.withTable table) := by
  have haction := agrees.action session.stack.topState token.kind
  cases effect with
  | shift action => exact .shift (haction.symm.trans action)
  | reduce action lookup pops goto =>
    obtain ⟨other, hother, hhead, harity⟩ := agrees.rule_of_some lookup
    rw [← harity] at pops
    rw [← hhead, agrees.goto] at goto
    rw [← hhead]
    exact .reduce (haction.symm.trans action) hother pops goto
  | accept action takes => exact .accept (haction.symm.trans action) takes
  | reject action =>
    have heffect :
        Effect (session.withTable table) token ((session.withTable table).reject token) :=
      .reject (haction.symm.trans action)
    rw [Session.reject, withTable_table, withTable_stack, ← agrees.expected] at heffect
    exact heffect
  | unknownRule action lookup =>
    exact .unknownRule (haction.symm.trans action) (agrees.rule_of_none lookup)
  | popFault action lookup pops =>
    obtain ⟨other, hother, -, harity⟩ := agrees.rule_of_some lookup
    rw [← harity] at pops
    exact .popFault (haction.symm.trans action) hother pops
  | missingGoto action lookup pops goto =>
    obtain ⟨other, hother, hhead, harity⟩ := agrees.rule_of_some lookup
    rw [← harity] at pops
    rw [← hhead, agrees.goto] at goto
    rw [← hhead]
    exact .missingGoto (haction.symm.trans action) hother pops goto
  | takeFault action takes => exact .takeFault (haction.symm.trans action) takes

variable [TokenSource σ]

/-- What comes next does not depend on the table. -/
theorem peek_withTable (table : Table) (session : Session σ) :
    (session.withTable table).peek = (session.peek.1, session.peek.2.withTable table) := by
  obtain ⟨_, source, stack, _ | token, line, finished⟩ := session <;> rfl

/-- A step answers the same over a table that agrees, and leaves the same behind. -/
theorem step_withTable {session : Session σ} {table : Table}
    (agrees : session.table.Agrees table) :
    (session.withTable table).step = (session.step.1, session.step.2.withTable table) := by
  cases hfin : session.finished with
  | true => rw [step_of_finished hfin, step_of_finished (by rw [withTable_finished, hfin])]
  | false =>
    rw [step_of_unfinished (by rw [withTable_finished, hfin]), peek_withTable]
    rw [← peek_table] at agrees
    exact ((effect_step hfin).withTable agrees).eq_move

theorem after_withTable {session : Session σ} {table : Table}
    (agrees : session.table.Agrees table) (n : Nat) :
    (session.withTable table).after n = (session.after n).withTable table := by
  induction n with
  | zero => rfl
  | succ n ih =>
    rw [after_succ, after_succ, ih, step_withTable]
    rwa [table_after]

/-- A run has the same outcome over a table that agrees, and leaves the same behind. -/
theorem run_withTable {session : Session σ} {table : Table}
    (agrees : session.table.Agrees table) (limit : Nat) :
    (session.withTable table).run limit =
      ((session.run limit).1, (session.run limit).2.withTable table) := by
  induction limit generalizing session with
  | zero => rfl
  | succ limit ih =>
    rw [run_succ, run_succ, step_withTable agrees]
    split
    · rw [ih (by rwa [table_step])]
    · rfl

end Session

namespace Table

open Session

/-- How a table is written does not matter: sessions over tables that agree run alike, and a table
agrees with its normal form. -/
theorem same_runs_of_agrees :
    (∀ left right : Table, left.Agrees right → ∀ {σ : Type} [TokenSource σ] (source : σ) (n : Nat),
      ((start left source).after n).step.1 = ((start right source).after n).step.1 ∧
      ((start left source).after n).stack = ((start right source).after n).stack ∧
      ((start left source).after n).lookahead = ((start right source).after n).lookahead ∧
      ((start left source).after n).source = ((start right source).after n).source ∧
      ((start left ({ inner := source } : Recorded σ)).after n).source.pulled =
        ((start right ({ inner := source } : Recorded σ)).after n).source.pulled ∧
      ((start left source).after n).line = ((start right source).after n).line ∧
      ((start left source).after n).finished = ((start right source).after n).finished ∧
      ((start left source).run n).1 = ((start right source).run n).1) ∧
    ∀ table : Table, table.Agrees table.normal ∧
      ∀ row ∈ table.rows,
        (row.normal.actions.Sublist row.actions ∧ row.normal.gotos.Sublist row.gotos) ∧
        ((row.normal.actions.map Prod.fst).Nodup ∧ (row.normal.gotos.map Prod.fst).Nodup) ∧
        (∀ kind action, (kind, action) ∈ row.normal.actions ↔
          row.action kind = action ∧ action ≠ .error) ∧
        ∀ kind state, (kind, state) ∈ row.normal.gotos ↔ row.goto? kind = some state := by
  constructor
  · intro left right agrees σ _ source n
    have hstart : ∀ {τ : Type} (source : τ), (start left source).table.Agrees right :=
      fun _ => agrees
    have hafter : ∀ {τ : Type} [TokenSource τ] (source : τ),
        (start right source).after n = ((start left source).after n).withTable right :=
      fun source => after_withTable (hstart source) n
    have hstep : ((start right source).after n).step.1 = ((start left source).after n).step.1 := by
      rw [hafter, step_withTable]
      rwa [table_after]
    have hrun := run_withTable (hstart source) n
    rw [withTable_start] at hrun
    rw [hstep, hrun, hafter, hafter]
    exact ⟨rfl, rfl, rfl, rfl, rfl, rfl, rfl, rfl⟩
  · intro table
    refine ⟨agrees_normal table, fun row _ => ⟨row.normal_sublist, row.normal_distinct, ?_, ?_⟩⟩
    · exact row.mem_normal_actions
    · exact row.mem_normal_gotos

/-- In its first state a shift is hidden by another and a reduction by an error. -/
def clutteredTable : Table :=
  ⟨[⟨.program, 1, [.terminal .prog]⟩],
    [⟨[(.prog, .shift 7), (.done, .reduce 0), (.done, .error), (.prog, .shift 1)],
      [(.program, 9), (.program, 2)]⟩,
      ⟨[(.endOfInput, .reduce 0)], []⟩, ⟨[(.endOfInput, .accept)], []⟩]⟩

/-- The same automaton without them, and with nothing on the right-hand side of its rule. -/
def tidyTable : Table :=
  ⟨[⟨.program, 1, []⟩], [⟨[(.prog, .shift 1)], [(.program, 2)]⟩,
    ⟨[(.endOfInput, .reduce 0)], []⟩, ⟨[(.endOfInput, .accept)], []⟩]⟩

/-- Over both tables the one program is accepted, and another token is refused with the same
expectation. -/
theorem same_runs_of_agrees_cluttered :
    let program := Script.ofList [.bare .prog 1]
    let other := Script.ofList [.bare .done 1]
    clutteredTable.Agrees tidyTable ∧
    ((start tidyTable program).run 3).1 =
      .accepted (.node .program [.leaf (.bare .prog 1)]) ∧
    ((start tidyTable other).after 0).step.1 = .error (.unexpected (.bare .done 1) [.prog]) := by
  intro program other
  have hnormal : clutteredTable.Agrees clutteredTable.normal :=
    (same_runs_of_agrees.2 clutteredTable).1
  have hagrees : clutteredTable.Agrees tidyTable :=
    ⟨rfl, hnormal.action, hnormal.goto, rfl⟩
  obtain ⟨-, -, -, -, -, -, -, hrun⟩ := same_runs_of_agrees.1 _ _ hagrees program 3
  obtain ⟨hstep, -⟩ := same_runs_of_agrees.1 _ _ hagrees other 0
  rw [← hrun, ← hstep]
  exact ⟨hagrees, rfl, rfl⟩

end Table

end ShiftReduce
