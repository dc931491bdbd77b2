import ShiftReduce.Proofs.Entries
import ShiftReduce.Proofs.Pulled

/-!
How a session ends, over any table. Each error leaves something of its own behind: an unexpected
token goes out of the buffer with its error, a fault leaves the token there, and only a missing
goto entry shows when the children are off the stack already. Whatever the step was that ended it,
a session answers every later step and run with the same refusal and stays exactly as it is.
-/

namespace ShiftReduce

namespace Session

variable {σ : Type}

/-- What a step that fails on a token leaves of a session on this stack, error by error. -/
inductive Aftermath (table : Table) (stack : Stack) (token : Token) :
    ParseError → Session σ → Prop
  | unexpected {next : Session σ} (action : table.action stack.topState token.kind = .error)
      (kept : next.stack = stack) (buffer : next.lookahead = none) :
      Aftermath table stack token (.unexpected token (table.expected stack.topState)) next
  | unknownRule {next : Session σ} {index : Nat}
      (action : table.action stack.topState token.kind = .reduce index)
      (lookup : table.rule? index = none)
      (kept : next.stack = stack) (buffer : next.lookahead = some token) :
      Aftermath table stack token (.internal (.unknownRule index)) next
  | underflow {next : Session σ} {index : Nat} {rule : Rule}
      (action : table.action stack.topState token.kind = .reduce index)
      (lookup : table.rule? index = some rule) (short : stack.depth < rule.arity)
      (kept : next.stack = stack) (buffer : next.lookahead = some token) :
      Aftermath table stack token (.internal (.stackUnderflow rule.arity stack.depth)) next
  | missingGoto {next : Session σ} {index state : Nat} {rule : Rule} {gone : List StackEntry}
      (action : table.action stack.topState token.kind = .reduce index)
      (lookup : table.rule? index = some rule) (count : gone.length = rule.arity)
      (popped : stack.entries = next.stack.entries ++ gone) (exposed : next.stack.topState = state)
      (goto : table.goto? state rule.head = none) (buffer : next.lookahead = some token) :
      Aftermath table stack token (.internal (.missingGoto state rule.head)) next
  | malformedAccept {next : Session σ}
      (action : table.action stack.topState token.kind = .accept) (depth : stack.depth ≠ 1)
      (kept : next.stack = stack) (buffer : next.lookahead = some token) :
      Aftermath table stack token (.internal (.malformedAccept stack.depth)) next

/-- Failing on the token in the buffer, over a linked stack, has one of these aftermaths. -/
theorem Effect.aftermath {session next : Session σ} {token : Token} {error : ParseError}
    (linked : Linked session.table session.stack.above) (buffer : session.lookahead = some token)
    (effect : Effect session token (.error error, next)) :
    Aftermath session.table session.stack token error next := by
  cases effect with
  | reject action => exact .unexpected action rfl rfl
  | unknownRule action lookup => exact .unknownRule action lookup rfl buffer
  | popFault action lookup pops =>
    obtain ⟨hshort, rfl, rfl⟩ := linked.popMany_error pops
    exact .underflow action lookup hshort rfl buffer
  | missingGoto action lookup pops goto =>
    obtain ⟨gone, hcount, hentries⟩ := Stack.entries_of_popMany pops
    exact .missingGoto action lookup hcount hentries rfl goto buffer
  | takeFault action takes =>
    obtain ⟨hdepth, rfl, rfl⟩ := linked.takeResult_error takes
    exact .malformedAccept action hdepth rfl buffer

theorem aftermath_of_error [TokenSource σ] {session : Session σ}
    (unfinished : session.finished = false) (linked : Linked session.table session.stack.above)
    {error : ParseError} (fails : session.step.1 = .error error) :
    Aftermath session.table session.stack session.peek.1 error session.step.2 := by
  have heffect := effect_step unfinished
  rw [show session.step = (.error error, session.step.2) from Prod.ext fails rfl] at heffect
  rw [← peek_table session, ← peek_stack session] at linked ⊢
  exact heffect.aftermath linked (peek_lookahead session)

/-! ### Calls on a session -/

/-- What a session can be asked for; a run makes at least one step. -/
inductive Call where
  | step
  | run (extra : Nat)
  deriving DecidableEq, Repr

/-- What a session answers to a call. -/
inductive Reply where
  | step (answer : Except ParseError Step)
  | run (outcome : Outcome)
  deriving Repr

/-- The reply to a call once the session has ended. -/
def Call.refusal : Call → Reply
  | .step => .step (.error .finished)
  | .run _ => .run (.failed .finished)

section Calls

variable [TokenSource σ]

/-- The reply to a call and the session after it. -/
def reply (session : Session σ) : Call → Reply × Session σ
  | .step => (.step session.step.1, session.step.2)
  | .run extra => (.run (session.run (extra + 1)).1, (session.run (extra + 1)).2)

/-- The replies to calls one after another, and the session after the last. -/
def replies (session : Session σ) : List Call → List Reply × Session σ
  | [] => ([], session)
  | call :: calls =>
    let rest := replies (session.reply call).2 calls
    ((session.reply call).1 :: rest.1, rest.2)

theorem reply_of_finished {session : Session σ} (finished : session.finished = true) :
    ∀ call, session.reply call = (call.refusal, session)
  | .step => by rw [reply, step_of_finished finished, Call.refusal]
  | .run extra => by rw [reply, run_of_finished finished, Call.refusal]

/-- A session that has ended refuses every call and stays as it is. -/
theorem replies_of_finished {session : Session σ} (finished : session.finished = true)
    (calls : List Call) : session.replies calls = (calls.map Call.refusal, session) := by
  induction calls with
  | nil => rfl
  | cons call calls ih => rw [replies, reply_of_finished finished, ih, List.map_cons]

theorem finished_of_outcome {session : Session σ} (unfinished : session.finished = false)
    (ends : outcomeOf session.step.1 ≠ .unfinished) : session.step.2.finished = true := by
  rw [Ne, outcomeOf_step_eq_unfinished unfinished, Bool.not_eq_false] at ends
  exact ends

/-- A step that fails leaves the aftermath of its error, and once a session has failed or accepted
nothing changes any more. -/
theorem ended_for_good (table : Table) (source : σ) {n : Nat}
    (unfinished :
      ((start table ({ inner := source } : Recorded σ)).after n).finished = false) :
    let session := (start table ({ inner := source } : Recorded σ)).after n
    (∀ error, session.step.1 = .error error →
      Aftermath table session.stack session.peek.1 error session.step.2 ∧
        session.step.2.source.pulled.getLast? = some session.peek.1 ∧
        ∀ calls, session.step.2.replies calls = (calls.map Call.refusal, session.step.2)) ∧
    (∀ tree, session.step.1 = .ok (.accepted tree) →
      ∀ calls, session.step.2.replies calls = (calls.map Call.refusal, session.step.2)) := by
  intro session
  have htable : session.table = table := table_after _ n
  have hlinked : Linked session.table session.stack.above := by
    rw [htable]
    exact linked_after table _ n unfinished
  have hstart : Accounts (start table ({ inner := source } : Recorded σ)) := rfl
  have haccounts : Accounts session := after_induction (fun _ => Accounts.step) hstart n unfinished
  refine ⟨?_, ?_⟩
  · intro error fails
    refine ⟨htable ▸ aftermath_of_error unfinished hlinked fails, ?_, ?_⟩
    · rw [source_step unfinished, haccounts.peek, List.getLast?_concat]
    · exact replies_of_finished (finished_of_outcome unfinished (by rw [fails]; exact nofun))
  · intro tree accepts
    exact replies_of_finished (finished_of_outcome unfinished (by rw [accepts]; exact nofun))

/-- One rule, whose reduction in the second state finds no goto entry in the first. -/
def strandedTable : Table :=
  ⟨[⟨.block, 1, [.terminal .done]⟩], [⟨[(.done, .shift 1)], []⟩, ⟨[(.endOfInput, .reduce 0)], []⟩]⟩

/-- The reduction has lost its child when it fails, and the token looked at is in the buffer. -/
theorem ended_for_good_stranded :
    let session := (start strandedTable
      ({ inner := Script.ofList [.bare .done 4] } : Recorded Script)).after 1
    session.finished = false ∧
    session.stack.entries = [.start, ⟨1, some (.leaf (.bare .done 4))⟩] ∧
    session.step.1 = .error (.internal (.missingGoto 0 .block)) ∧
    Aftermath strandedTable session.stack (.atEnd 4) (.internal (.missingGoto 0 .block))
      session.step.2 ∧
    session.step.2.stack.entries = [.start] ∧ session.step.2.lookahead = some (.atEnd 4) ∧
    session.step.2.source.pulled.getLast? = some (.atEnd 4) ∧
    session.step.2.replies [.step, .run 3, .step] =
      ([.step (.error .finished), .run (.failed .finished), .step (.error .finished)],
        session.step.2) := by
  intro session
  have hunfinished : session.finished = false := rfl
  have hfails : session.step.1 = .error (.internal (.missingGoto 0 .block)) := rfl
  obtain ⟨haftermath, hpulled, hrefusals⟩ :=
    (ended_for_good strandedTable _ hunfinished).1 _ hfails
  exact ⟨hunfinished, rfl, hfails, haftermath, rfl, rfl, hpulled, hrefusals _⟩

end Calls

end Session

end ShiftReduce
