import ShiftReduce.Proofs.Continuations

/-!
Which legal continuations a failure names. No state reduces by two rules, so under an unexpected
token a session takes the same reductions as on a program that goes on legally, until it comes to
the state that has no entry for the token, which then has one for the continuation. The two part
only where a state shifts the continuation and reduces under the unexpected token. There the session
passes over the continuation: it closes an operand that an operator could still have made longer,
and the operators that would have are not among those it names in the end.
-/

namespace ShiftReduce

theorem Table.row_mem_of_goto {table : Table} {state next : Nat} {kind : Nonterminal}
    (goto : table.goto? state kind = some next) : table.row state ∈ table.rows := by
  have hlt : state < table.rows.length := lt_of_goto (Option.isSome_of_eq_some goto)
  rw [row, List.getElem?_eq_getElem hlt]
  exact List.getElem_mem hlt

/-- No state reduces by two rules, or reduces on one kind and accepts on another. -/
structure Table.OneRule (table : Table) : Prop where
  same : ∀ {state kind other index others}, table.action state kind = .reduce index →
    table.action state other = .reduce others → others = index
  not_accept : ∀ {state kind other index}, table.action state kind = .reduce index →
    table.action state other ≠ .accept

/-- Whatever lies below, the rule leads to an open state with an entry for the kind, or to a closed
one. -/
def Table.HandsOn (table : Table) (opens closed : List Nat) (kind : Terminal) (index : Nat) :
    Prop :=
  ∀ rule ∈ table.rule? index, ∀ row ∈ table.rows, ∀ next ∈ row.goto? rule.head,
    next ∈ opens ∧ table.action next kind ≠ .error ∨ next ∈ closed
  deriving Decidable

/-- Reductions lead from open states to open or closed ones, and end in the closed ones. -/
structure Table.Settles (table : Table) (opens closed : List Nat) : Prop where
  from_open : ∀ state ∈ opens, ∀ kind, ∀ index ∈ (table.action state kind).reduce?,
    table.HandsOn opens closed kind index
  at_closed : ∀ state ∈ closed, ∀ kind, (table.action state kind).reduce? = none

namespace Session

variable {σ τ : Type} [TokenSource σ] [TokenSource τ] {table : Table}

/-! ### Steps that shift nothing -/

theorem awaits_after {source : σ} {n : Nat} {front : List Token} {token : Token}
    (unfinished : ((start table source).after n).finished = false)
    (shifts : (start table source).shifted n = front)
    (reads : (TokenSource.take source (front.length + 1)).1 = front ++ [token]) :
    Awaits table ((start table source).after n).stack [token] ((start table source).after n) := by
  have hupcoming := upcoming_after n unfinished 1
  rw [shifts, upcoming_start, reads] at hupcoming
  exact ⟨table_after _ n, rfl, (List.append_cancel_left hupcoming).symm, unfinished⟩

theorem quiet_of_shifted_eq {session : Session σ} {m n : Nat}
    (same : session.shifted (m + n) = session.shifted m) : (session.after m).shifted n = [] := by
  rw [shifted_add] at same
  exact List.append_right_eq_self.mp same

namespace Awaits

variable {stack : Stack} {token : Token} {session : Session σ}

/-- A step that shifts nothing and leaves the session unfinished reduces under the next token. -/
theorem quiet_step (awaits : Awaits table stack [token] session)
    (unfinished : session.step.2.finished = false)
    (quiet : shiftedBy session.peek.1 session.step.1 = []) :
    ∃ index rule children below state, table.action stack.topState token.kind = .reduce index ∧
      table.rule? index = some rule ∧ stack.popMany rule.arity = (.ok children, below) ∧
      table.goto? below.topState rule.head = some state ∧
      session.step.1 = .ok (.reduced index state) ∧
      Awaits table (below.push state (some (.node rule.head children))) [token]
        session.step.2 := by
  obtain ⟨state, -, hstep⟩ | ⟨index, rule, children, below, state, haction, hlookup, hpops, hgoto,
      hstep⟩ := step_cases unfinished
  · rw [hstep] at quiet
    cases quiet
  · rw [awaits.table_eq, awaits.stack_eq, awaits.peek_eq] at haction
    rw [awaits.table_eq] at hlookup hgoto
    rw [awaits.stack_eq] at hpops
    exact ⟨index, rule, children, below, state, haction, hlookup, hpops, hgoto,
      congrArg Prod.fst hstep, awaits.step_reduce haction hlookup hpops hgoto⟩

theorem step_reject (awaits : Awaits table stack [token] session)
    (action : table.action stack.topState token.kind = .error) :
    session.step = session.peek.2.reject session.peek.1 := by
  rw [← awaits.peek_eq, ← awaits.table_eq, ← awaits.stack_eq, ← peek_table, ← peek_stack session]
    at action
  rw [step_of_unfinished awaits.unfinished, (Effect.reject action).eq_move]

theorem action_of_reduced (awaits : Awaits table stack [token] session) {index state : Nat}
    (answer : session.step.1 = .ok (.reduced index state)) :
    table.action stack.topState token.kind = .reduce index := by
  have heffect := effect_step awaits.unfinished
  rw [← awaits.peek_eq, ← awaits.table_eq, ← awaits.stack_eq, ← peek_table, ← peek_stack session]
  generalize session.step = result at heffect answer
  cases heffect with
  | reduce action lookup pops goto =>
    obtain ⟨rfl, -⟩ := Step.reduced.inj (Except.ok.inj answer)
    exact action
  | _ => cases answer

/-- While nothing is shifted, an open state leads to open or closed ones. -/
theorem settles {opens closed : List Nat} (settles : table.Settles opens closed) {n : Nat}
    (awaits : Awaits table stack [token] session)
    (unfinished : (session.after n).finished = false) (quiet : session.shifted n = [])
    (holds : stack.topState ∈ opens ∧ table.action stack.topState token.kind ≠ .error ∨
      stack.topState ∈ closed) :
    (session.after n).stack.topState ∈ opens ∧
        table.action (session.after n).stack.topState token.kind ≠ .error ∨
      (session.after n).stack.topState ∈ closed := by
  induction n generalizing session stack with
  | zero =>
    rw [after, awaits.stack_eq]
    exact holds
  | succ n ih =>
    rw [after] at unfinished ⊢
    rw [shifted, List.append_eq_nil_iff] at quiet
    obtain ⟨index, rule, children, below, state, haction, hlookup, -, hgoto, -, hnext⟩ :=
      awaits.quiet_step (unfinished_of_after unfinished) quiet.1
    refine ih hnext unfinished quiet.2 ?_
    have hreduce : (table.action stack.topState token.kind).reduce? = some index := by
      rw [haction]
      rfl
    rcases holds with ⟨hopen, -⟩ | hclosed
    · exact settles.from_open _ hopen _ index hreduce rule hlookup _ (Table.row_mem_of_goto hgoto)
        state hgoto
    · rw [settles.at_closed _ hclosed] at hreduce
      cases hreduce

end Awaits

/-! ### Two sessions on the same stack -/

/-- The session comes to accept. -/
def Accepts (session : Session σ) : Prop := ∃ limit tree, (session.run limit).1 = .accepted tree

theorem Accepts.step {session : Session σ} (accepts : Accepts session)
    (unfinished : session.step.2.finished = false) : Accepts session.step.2 := by
  obtain ⟨_ | limit, tree, haccepts⟩ := accepts
  · cases haccepts
  · have hgoes := (outcomeOf_step_eq_unfinished (unfinished_of_step unfinished)).mpr unfinished
    rw [run_succ, if_pos hgoes] at haccepts
    exact ⟨limit, tree, haccepts⟩

/-- A session that comes to accept has an entry for the next token. -/
theorem Awaits.action_ne_error {stack : Stack} {token : Token} {session : Session σ}
    (awaits : Awaits table stack [token] session) (accepts : Accepts session) :
    table.action stack.topState token.kind ≠ .error := by
  intro haction
  obtain ⟨_ | limit, tree, haccepts⟩ := accepts
  · cases haccepts
  · rw [run_succ, awaits.step_reject haction] at haccepts
    cases haccepts

/-- Where a session comes to accept on a continuation, another on the same stack that shifts nothing
keeps an entry for it, unless it reduces in a state that shifts it. -/
theorem entry_or_passes_over (one_rule : table.OneRule) {token next : Token} {n : Nat}
    {stack : Stack} {session : Session σ} {other : Session τ}
    (awaits : Awaits table stack [token] session) (awaits' : Awaits table stack [next] other)
    (accepts : Accepts other) (unfinished : (session.after n).finished = false)
    (quiet : session.shifted n = []) :
    table.action (session.after n).stack.topState next.kind ≠ .error ∨
      ∃ i < n,
        (∃ state, table.action (session.after i).stack.topState next.kind = .shift state) ∧
        ∃ index state, (session.after i).step.1 = .ok (.reduced index state) := by
  induction n generalizing session other stack with
  | zero =>
    rw [after, awaits.stack_eq]
    exact Or.inl (awaits'.action_ne_error accepts)
  | succ n ih =>
    rw [after] at unfinished ⊢
    rw [shifted, List.append_eq_nil_iff] at quiet
    obtain ⟨index, rule, children, below, state, haction, hlookup, hpops, hgoto, hanswer, hnext⟩ :=
      awaits.quiet_step (unfinished_of_after unfinished) quiet.1
    cases hother : table.action stack.topState next.kind with
    | error => exact absurd hother (awaits'.action_ne_error accepts)
    | accept => exact absurd hother (one_rule.not_accept haction)
    | shift target =>
      rw [← awaits.stack_eq] at hother
      exact Or.inr ⟨0, Nat.succ_pos n, ⟨target, hother⟩, index, state, hanswer⟩
    | reduce found =>
      obtain rfl := one_rule.same haction hother
      have hnext' := awaits'.step_reduce hother hlookup hpops hgoto
      rcases ih hnext hnext' (accepts.step hnext'.unfinished) unfinished quiet.2 with
        hentry | ⟨i, hi, hpasses⟩
      · exact Or.inl hentry
      · exact Or.inr ⟨i + 1, Nat.succ_lt_succ hi, hpasses⟩

/-- Once the session has shifted all that it shifts within `limit` steps, it reduces in a state that
would have shifted a token of the kind. -/
def PassesOver (session : Session σ) (limit : Nat) (kind : Terminal) : Prop :=
  ∃ count, (session.after count).finished = false ∧
    session.shifted count = session.shifted limit ∧
    (∃ state, session.table.action (session.after count).stack.topState kind = .shift state) ∧
    ∃ index state, (session.after count).step.1 = .ok (.reduced index state)

/-- After `n` steps the session has shifted some tokens and refuses the next one. -/
structure RefusesAt (table : Table) (source : σ) (front : List Token) (token : Token) (n : Nat) :
    Prop where
  unfinished : ((start table source).after n).finished = false
  shifts : (start table source).shifted n = front
  reads : (TokenSource.take source (front.length + 1)).1 = front ++ [token]
  refused : table.action ((start table source).after n).stack.topState token.kind = .error

/-- No session is unfinished after the step that refuses a token. -/
theorem RefusesAt.le_of_unfinished {source : σ} {front : List Token} {token : Token} {n count : Nat}
    (refuses : RefusesAt table source front token n)
    (unfinished : ((start table source).after count).finished = false) : count ≤ n := by
  have hawaits := awaits_after refuses.unfinished refuses.shifts refuses.reads
  refine Nat.le_of_not_lt fun hlt => ?_
  have hlater := unfinished_of_le hlt unfinished
  rw [after_succ, hawaits.step_reject refuses.refused] at hlater
  cases hlater

end Session

namespace Language

variable {σ : Type} [TokenSource σ]

/-! ### The language's table -/

/-- The rule that a state reduces by. -/
def reducing (state : Nat) : Option Nat :=
  (table.row state).actions.findSome? fun entry => entry.2.reduce?

/-- The states behind a complete operand of one level, which an operator can make longer. -/
def behindOperand : List Nat := [30, 31, 32, 33, 50, 51, 52, 53]

/-- The states behind a disjunction, which only its own operator makes longer. -/
def behindDisjunction : List Nat := [29, 35, 36, 37]

/-- The binary operators that bind tighter than the one of disjunctions. -/
def tighterOperators : List Terminal := [.andOp, .compareOp, .addOp, .mulOp]

theorem reducing_check : ∀ state < rows.length, ∀ kind,
    (∀ index ∈ (table.action state kind).reduce?, reducing state = some index) ∧
    (table.action state kind = .accept → reducing state = none) := by
  decide +kernel

/-- Only behind an operand, and where an alternative can stand, a state shifts one kind and reduces
on another. -/
theorem passing_check : ∀ state < rows.length, ∀ kind, ∀ next ∈ table.next? state (.terminal kind),
    ∀ index ∈ reducing state, state ∈ 56 :: behindOperand := by
  decide +kernel

theorem operator_check : ∀ state ∈ behindOperand, ∀ kind,
    ∀ next ∈ table.next? state (.terminal kind), kind ∈ tighterOperators := by
  decide +kernel

theorem reducing_of_reduce {state index : Nat} {kind : Terminal}
    (action : table.action state kind = .reduce index) : reducing state = some index := by
  have hlt : state < rows.length := Table.lt_of_action (by rw [action]; exact nofun)
  exact (reducing_check state hlt kind).1 index (by rw [action]; rfl)

theorem one_rule : table.OneRule where
  same first second := by
    have hfirst := reducing_of_reduce first
    rw [reducing_of_reduce second] at hfirst
    exact Option.some.inj hfirst
  not_accept {state kind other index} reduces accepts := by
    have hlt : state < rows.length := Table.lt_of_action (by rw [accepts]; exact nofun)
    have hnone := (reducing_check state hlt other).2 accepts
    rw [reducing_of_reduce reduces] at hnone
    cases hnone

/-- Behind an operand, reductions lead on to longer operands and in the end to a disjunction. -/
theorem operand_settles : table.Settles behindOperand behindDisjunction where
  from_open := by decide +kernel
  at_closed := by decide +kernel

/-- Where an alternative is left out, reductions lead through the conditional and its statement to
the rest of the block, which takes whatever can follow a statement. -/
theorem conditional_settles : table.Settles [56, 59, 14, 11] [] where
  from_open := by decide +kernel
  at_closed := by decide +kernel

theorem disjunction_check : ∀ state ∈ behindDisjunction, ∀ kind ∈ tighterOperators,
    table.action state kind = .error := by
  decide +kernel

/-! ### What a failure names -/

/-- Where a session has just shifted some tokens, one on the same stack comes to accept on a legal
continuation of them. -/
theorem CanFollow.exists_session {source : σ} {n : Nat} {front : List Token} {next : Token}
    (follows : CanFollow (front.map Token.kind) next.kind)
    (shifts : (Session.start table source).shifted n = front)
    (first : ∀ i < n, ((Session.start table source).shifted i).length < front.length)
    (unfinished : ((Session.start table source).after n).finished = false) :
    ∃ other : Session Script, Session.Accepts other ∧
      Session.Awaits table ((Session.start table source).after n).stack [next] other := by
  obtain ⟨tree, last, more, hprogram, hlast, hleaves⟩ := follows.exists_tree
  have hreads : (TokenSource.take (⟨tree.leaves ++ [last], 0⟩ : Script) (front.length + 1)).1 =
      front ++ [next] := by
    rw [hleaves, Script.take_front, List.headD_cons]
  have hfront := TokenSource.take_of_take_succ hreads
  obtain ⟨hbefore, hstack, hshifted⟩ := Session.same_until_shifted shifts first unfinished hfront
  refine ⟨_, ⟨tree.size + 1, tree, ?_⟩, hstack ▸ Session.awaits_after hbefore hshifted hreads⟩
  rw [← Session.run_add _ _ _ hbefore]
  exact accepts_script hprogram hlast (by omega)

/-- A state that shifts a kind and reduces under a refused token stands behind an operand: the kind
is one of the tighter operators, and the state that refuses the token has no entry for it either. -/
theorem error_of_passed_over {stack : Stack} {token : Token} {session : Session σ} {n : Nat}
    (awaits : Session.Awaits table stack [token] session)
    (unfinished : (session.after n).finished = false) (quiet : session.shifted n = [])
    (refused : table.action (session.after n).stack.topState token.kind = .error)
    {kind : Terminal} {target index : Nat}
    (shifts : table.action stack.topState kind = .shift target)
    (reduces : table.action stack.topState token.kind = .reduce index) :
    kind ∈ tighterOperators ∧
      table.action (session.after n).stack.topState kind = .error := by
  have hnext := Table.next?_of_shift shifts
  have hentry : table.action stack.topState token.kind ≠ .error := by
    rw [reduces]
    exact nofun
  rcases List.mem_cons.mp (passing_check _ (Table.lt_of_next? hnext) kind target hnext index
    (reducing_of_reduce reduces)) with halternative | hoperand
  · have hopen : stack.topState ∈ [56, 59, 14, 11] := by simp [halternative]
    rcases awaits.settles conditional_settles unfinished quiet (Or.inl ⟨hopen, hentry⟩) with
      ⟨-, hlast⟩ | hlast
    · exact absurd refused hlast
    · cases hlast
  · have htighter := operator_check _ hoperand kind target hnext
    rcases awaits.settles operand_settles unfinished quiet (Or.inl ⟨hoperand, hentry⟩) with
      ⟨-, hlast⟩ | hlast
    · exact absurd refused hlast
    · exact ⟨htighter, disjunction_check _ hlast kind htighter⟩

section Refused

variable {source : σ} {limit n : Nat} {token : Token} {kind : Terminal}

theorem PassesOver.error_at
    (refuses : Session.RefusesAt table source ((Session.start table source).shifted limit) token n)
    (passes : (Session.start table source).PassesOver limit kind) :
    kind ∈ tighterOperators ∧
      table.action ((Session.start table source).after n).stack.topState kind = .error := by
  obtain ⟨count, hunfinished, hsame, ⟨target, hshifts⟩, index, state, hanswer⟩ := passes
  obtain ⟨more, rfl⟩ := Nat.exists_eq_add_of_le (refuses.le_of_unfinished hunfinished)
  obtain ⟨hbefore, hall, hreads, hrefused⟩ := refuses
  have hquiet := Session.quiet_of_shifted_eq (hall.trans hsame.symm)
  have hawaits := Session.awaits_after hunfinished hsame hreads
  rw [Session.after_add] at hbefore hrefused ⊢
  exact error_of_passed_over hawaits hbefore hquiet hrefused hshifts
    (hawaits.action_of_reduced hanswer)

/-- A legal continuation that the refusing state has no entry for has been passed over, as between
the last shift and the refusal the session only reduces. -/
theorem CanFollow.passed_over
    (follows : CanFollow (((Session.start table source).shifted limit).map Token.kind) kind)
    (refuses : Session.RefusesAt table source ((Session.start table source).shifted limit) token n)
    (missing : table.action ((Session.start table source).after n).stack.topState kind = .error) :
    (Session.start table source).PassesOver limit kind := by
  obtain ⟨hbefore, hall, hreads, -⟩ := refuses
  obtain ⟨m, hm, hcount, hfirst⟩ :=
    Session.exists_shifted_eq (Nat.le_of_eq (congrArg List.length hall.symm))
  have hunfinished := Session.unfinished_of_le hm hbefore
  obtain ⟨more, rfl⟩ := Nat.exists_eq_add_of_le hm
  rw [Session.after_add] at hbefore missing
  rw [Session.shifted_add] at hall
  obtain ⟨hfront, hquiet⟩ := List.append_inj (hall.trans (List.append_nil _).symm) hcount
  have hawaits := Session.awaits_after hunfinished hfront hreads
  have hnext : CanFollow (((Session.start table source).shifted limit).map Token.kind)
      (Token.bare kind 0).kind := follows
  obtain ⟨other, haccepts, hother⟩ := hnext.exists_session hfront hfirst hunfinished
  rcases Session.entry_or_passes_over one_rule hawaits hother haccepts hbefore hquiet with
    hentry | ⟨i, hi, hshifts, hanswer⟩
  · exact absurd missing hentry
  · have hbetween : ((Session.start table source).after m).shifted i = [] := by
      have hshorter := Session.length_shifted_mono ((Session.start table source).after m)
        (Nat.le_of_lt hi)
      rw [hquiet] at hshorter
      exact List.length_eq_zero_iff.mp (Nat.le_zero.mp hshorter)
    refine ⟨m + i, ?_, ?_, ?_⟩
    · rw [Session.after_add]
      exact Session.unfinished_of_le (Nat.le_of_lt hi) hbefore
    · rw [Session.shifted_add, hfront, hbetween, List.append_nil]
    · rw [Session.after_add]
      exact ⟨hshifts, hanswer⟩

end Refused

/-- Of the legal continuations, a failure misses just the binary operators tighter than that of
disjunctions which the session has passed over since its last shift. -/
theorem missing_iff_passed_over {source : σ} {limit : Nat} {token : Token}
    {expected : List Terminal}
    (fails : (parseWithin limit source).1 = .failed (.unexpected token expected))
    {kind : Terminal}
    (follows : CanFollow (((Session.start table source).shifted limit).map Token.kind) kind) :
    kind ∉ expected ↔ kind ∈ [.andOp, .compareOp, .addOp, .mulOp] ∧
      (Session.start table source).PassesOver limit kind := by
  obtain ⟨n, hbefore, -, rfl, hrefused, hshifted, hreads⟩ := Session.rejected_at fails
  have hrefuses : Session.RefusesAt table source ((Session.start table source).shifted limit) token
      n := ⟨hbefore, hshifted, hreads, hrefused⟩
  rw [Table.mem_expected, Decidable.not_not]
  constructor
  · intro hmissing
    have hpasses := follows.passed_over hrefuses hmissing
    exact ⟨(PassesOver.error_at hrefuses hpasses).1, hpasses⟩
  · rintro ⟨-, hpasses⟩
    exact (PassesOver.error_at hrefuses hpasses).2

/-- A program that assigns a product. -/
def productProgram : ParseTree :=
  .node .program [.leaf (.bare .prog 1), .leaf ⟨.ident, some "tiny", 1⟩, .leaf (.bare .colon 1),
    .node .block [
      .node .statement [.node .assignment [.leaf (.bare .set 2), .leaf ⟨.ident, some "x", 2⟩,
        .leaf (.bare .assign 2),
        .node .disjunction [.node .conjunction [.node .comparison [.node .sum [.node .product [
          .node .product [.node .factor [.leaf ⟨.literal, some "1", 2⟩]],
          .leaf ⟨.mulOp, some "*", 2⟩,
          .node .factor [.leaf ⟨.literal, some "2", 2⟩]]]]]],
        .leaf (.bare .semicolon 2)]],
      .node .block [.leaf (.bare .done 3)]],
    .leaf (.bare .smile 3)]

/-- The beginning of that program up to the first literal, and a parenthesis that nothing opens. -/
def unopened : Script :=
  .ofList (productProgram.leaves.take 7 ++ [.bare .rightParen 2])

theorem unopened_fails : (parseWithin 50 unopened).1 =
    .failed (.unexpected (.bare .rightParen 2) [.orOp, .semicolon]) := by
  decide +kernel

/-- Instead of the parenthesis the operator of the product could have come. -/
theorem unopened_follows :
    CanFollow (((Session.start table unopened).shifted 50).map Token.kind) .mulOp := by
  have hkinds : ((Session.start table unopened).shifted 50).map Token.kind =
      [.prog, .ident, .colon, .set, .ident, .assign, .literal] := by decide +kernel
  have hprogram : IsProgramTree productProgram := by decide
  rw [hkinds]
  exact ⟨[.literal, .semicolon, .done, .smile], productProgram, hprogram.1, hprogram.2, rfl⟩

/-- The literal is closed to a whole disjunction before the parenthesis is found to be wrong, and
the operator is not expected any more. -/
theorem product_not_expected :
    (parseWithin 50 unopened).1 =
      .failed (.unexpected (.bare .rightParen 2) [.orOp, .semicolon]) ∧
    CanFollow (((Session.start table unopened).shifted 50).map Token.kind) .mulOp ∧
    .mulOp ∉ [Terminal.orOp, Terminal.semicolon] :=
  ⟨unopened_fails, unopened_follows, by decide⟩

/-- The session has passed over that operator. -/
theorem missing_iff_passed_over_product :
    (parseWithin 50 unopened).1 =
      .failed (.unexpected (.bare .rightParen 2) [.orOp, .semicolon]) ∧
    CanFollow (((Session.start table unopened).shifted 50).map Token.kind) .mulOp ∧
    (Session.start table unopened).PassesOver 50 .mulOp :=
  ⟨unopened_fails, unopened_follows,
    ((missing_iff_passed_over unopened_fails unopened_follows).mp (by decide)).2⟩

end Language

end ShiftReduce
