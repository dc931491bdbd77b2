import ShiftReduce.Proofs.Alike

/-!
What has been pulled. A session over a recorded source runs as over the source inside, and its
record tells exactly which tokens it has pulled: those it has shifted, in order, and after them
the one in its buffer. When a run ends, that last one is the token it ended on.
-/

namespace ShiftReduce

namespace ParseTree

mutual

@[simp] theorem relabel_id : (tree : ParseTree) → tree.relabel id = tree
  | .leaf _ => rfl
  | .node head children => by rw [relabel, relabelAll_id children]

@[simp] theorem relabelAll_id : (trees : List ParseTree) → relabelAll id trees = trees
  | [] => rfl
  | tree :: trees => by rw [relabelAll, relabel_id tree, relabelAll_id trees]

end

end ParseTree

theorem Stack.relabel_id (stack : Stack) : stack.relabel id = stack := by
  have hentry : StackEntry.relabel id = id := by
    funext ⟨state, tree⟩
    cases tree with
    | none => rfl
    | some tree => rw [StackEntry.relabel, Option.map_some, ParseTree.relabel_id, id]
  rw [relabel, hentry, List.map_id]

theorem Session.stack_eq_of_relabel {σ τ : Type} {left : Session σ} {right : Session τ}
    (same : left.relabel id = right.relabel id) : left.stack = right.stack := by
  have hstack := congrArg Session.stack same
  rwa [relabel, relabel, Stack.relabel_id, Stack.relabel_id] at hstack

namespace TokenSource

variable {σ : Type} [TokenSource σ]

/-- A recorded source hands out the tokens of the source inside. -/
theorem take_recorded : ∀ (count : Nat) (source : σ) (pulled : List Token),
    (take (⟨source, pulled⟩ : Recorded σ) count).1 = (take source count).1
  | 0, _, _ => rfl
  | count + 1, source, pulled =>
    congrArg (List.cons _) (take_recorded count (next source).2 (pulled ++ [(next source).1]))

/-- The last of several tokens is the one handed out behind the others. -/
theorem take_succ (source : σ) (count : Nat) :
    take source (count + 1) =
      ((take source count).1 ++ [(next (take source count).2).1],
        (next (take source count).2).2) := by
  induction count generalizing source with
  | zero => rfl
  | succ count ih => rw [take, ih, take]; rfl

theorem take_of_take_succ {source : σ} {front : List Token} {next : Token}
    (reads : (take source (front.length + 1)).1 = front ++ [next]) :
    (take source front.length).1 = front := by
  rw [take_succ] at reads
  exact (List.append_inj' reads rfl).1

end TokenSource

namespace Session

variable {σ : Type}

theorem relabelOutcome_id (outcome : Outcome) : relabelOutcome id outcome = outcome := by
  obtain tree | ⟨_ | _ | _⟩ | _ := outcome <;> try rfl
  rw [relabelOutcome, ParseTree.relabel_id]

variable [TokenSource σ]

theorem recorded_alike (table : Table) (source : σ) (count : Nat) :
    Alike id count (start table ({ inner := source } : Recorded σ)) (start table source) := by
  refine ⟨rfl, ?_⟩
  rw [upcoming_start, upcoming_start, TokenSource.take_recorded]

/-- Keeping a record changes no outcome. -/
theorem run_recorded (table : Table) (source : σ) (limit : Nat) :
    ((start table ({ inner := source } : Recorded σ)).run limit).1 =
      ((start table source).run limit).1 := by
  have halike := run_alike (f := id) (fun _ => rfl)
    (recorded_alike table source (((start table _).shifted limit).length + 1))
  rw [relabelOutcome_id, relabelOutcome_id] at halike
  exact halike.1

theorem shifted_recorded (table : Table) (source : σ) (n : Nat) :
    (start table ({ inner := source } : Recorded σ)).shifted n =
      (start table source).shifted n := by
  have halike := shifted_alike (f := id) (fun _ => rfl)
    (recorded_alike table source (((start table _).shifted n).length + 1))
  rw [List.map_id, List.map_id] at halike
  exact halike

/-- The record is the leaves on the stack and the buffered token. -/
def Accounts (session : Session (Recorded σ)) : Prop :=
  session.source.pulled =
    ParseTree.leavesAll session.stack.trees ++ session.lookahead.toList

/-- Looking at the next token pulls it unless it is in the buffer. -/
theorem Accounts.peek {session : Session (Recorded σ)} (accounts : Accounts session) :
    session.peek.2.source.pulled =
      ParseTree.leavesAll session.stack.trees ++ [session.peek.1] := by
  obtain ⟨table, source, stack, _ | token, line, finished⟩ := session
  · rw [Accounts, Option.toList, List.append_nil] at accounts
    change source.pulled ++ [_] = _
    rw [accounts]
    rfl
  · exact accounts

theorem Accounts.step {session : Session (Recorded σ)}
    (unfinished : session.step.2.finished = false) (accounts : Accounts session) :
    Accounts session.step.2 := by
  have hsource := source_step (unfinished_of_step unfinished)
  have hleaves := leaves_step unfinished
  rw [Accounts, hleaves, hsource, accounts.peek]
  obtain ⟨state, -, hstep⟩ | ⟨index, rule, children, below, state, -, -, -, -, hstep⟩ :=
    step_cases unfinished
  · rw [hstep]
    exact (List.append_nil _).symm
  · rw [hstep, peek_lookahead, shiftedBy, List.append_nil]
    · rfl
    · intro state h
      cases h

/-- A run that ends has pulled the tokens it has shifted and one more. -/
theorem pulled_run (table : Table) (source : σ) {limit : Nat}
    (ends : ((start table source).run limit).1 ≠ .unfinished) :
    ((start table ({ inner := source } : Recorded σ)).run limit).2.source.pulled =
      (TokenSource.take source (((start table source).shifted limit).length + 1)).1 := by
  rw [← run_recorded] at ends
  obtain ⟨n, hbefore, hrun, hleaves, htaken⟩ := ended_run ends
  have hstart : Accounts (start table ({ inner := source } : Recorded σ)) := rfl
  have haccounts := after_induction (fun _ => Accounts.step) hstart n hbefore
  rw [hrun, source_step hbefore, haccounts.peek, hleaves, ← htaken, TokenSource.take_recorded,
    shifted_recorded]

end Session

end ShiftReduce
