import ShiftReduce.Proofs.Linked

/-!
The entries of a session's stack. Whatever the table, the lowest entry is the start, every other
one holds a tree, and a state leads to the one above it over the symbol of the tree there. So a
reduction never meets an entry without a tree; the only such entry is the one that an accept has
taken the result out of, in the state that the start leads to over it.
-/

namespace ShiftReduce

namespace Stack

theorem getLast?_entries (stack : Stack) :
    stack.entries.getLast? = some (stack.above.headD .start) := by
  obtain ⟨_ | ⟨entry, above⟩⟩ := stack
  · rfl
  · rw [entries, List.reverse_cons, ← List.cons_append, List.getLast?_concat]
    rfl

/-- What is popped are the topmost entries, as many as asked for. -/
theorem entries_of_popMany {stack below : Stack} {count : Nat} {children : List ParseTree}
    (h : stack.popMany count = (.ok children, below)) :
    ∃ gone, gone.length = count ∧ stack.entries = below.entries ++ gone := by
  obtain ⟨hle, -, rfl⟩ := popMany_eq_ok.mp h
  refine ⟨(stack.above.take count).reverse, ?_, ?_⟩
  · rw [List.length_reverse, List.length_take_of_le hle]
  · rw [entries, entries, List.cons_append, ← List.reverse_append, List.take_append_drop]

end Stack

/-! ### Linked stacks -/

namespace Linked

variable {table : Table}

theorem isSome_tree {above : List StackEntry} (linked : Linked table above) :
    ∀ entry ∈ above, entry.tree.isSome := by
  induction linked with
  | nil => exact List.forall_mem_nil _
  | cons rest edge ih => exact List.forall_mem_cons.mpr ⟨rfl, ih⟩

/-- Of two neighbours the lower leads to the upper over the symbol of its tree. -/
theorem neighbours {above : List StackEntry} (linked : Linked table above)
    {front back : List StackEntry} {lower upper : StackEntry}
    (split : (Stack.mk above).entries = front ++ lower :: upper :: back) :
    ∃ tree, upper.tree = some tree ∧ table.next? lower.state tree.symbol = some upper.state := by
  induction linked generalizing back with
  | nil =>
    have hlength := congrArg List.length split
    rw [Stack.length_entries, List.length_append, List.length_cons, List.length_cons] at hlength
    change 0 + 1 = _ at hlength
    omega
  | @cons below state tree rest edge ih =>
    have hpush := Stack.entries_push ⟨below⟩ state (some tree)
    rw [Stack.push] at hpush
    rw [hpush] at split
    obtain rfl | ⟨others, last, rfl⟩ := List.eq_nil_or_concat back
    · -- the upper entry is the topmost one, so the lower is in the state that it was pushed over
      rw [List.append_cons front lower] at split
      obtain ⟨hbelow, htop⟩ := List.append_inj' split rfl
      obtain rfl := (List.cons.inj htop).1
      have hlast := Stack.getLast?_entries ⟨below⟩
      rw [hbelow, List.getLast?_concat] at hlast
      refine ⟨tree, rfl, ?_⟩
      rw [Option.some.inj hlast]
      exact edge
    · rw [List.concat_eq_append, ← List.cons_append, ← List.cons_append, ← List.append_assoc]
        at split
      exact ih (List.append_inj' split rfl).1

/-- On a linked stack every entry that is popped has its tree. -/
theorem popMany_eq {above : List StackEntry} (linked : Linked table above) {count : Nat}
    (le : count ≤ above.length) :
    ∃ children below, (Stack.mk above).popMany count = (.ok children, below) := by
  induction linked generalizing count with
  | nil =>
    obtain rfl := Nat.le_zero.mp le
    exact ⟨_, _, Stack.popMany_zero _⟩
  | @cons below state tree rest edge ih =>
    cases count with
    | zero => exact ⟨_, _, Stack.popMany_zero _⟩
    | succ count =>
      obtain ⟨children, under, hpops⟩ := ih (Nat.le_of_succ_le_succ le)
      exact ⟨_, _, Stack.popMany_push state tree hpops⟩

/-- Popping from a linked stack fails for want of entries only, and then pops none. -/
theorem popMany_error {stack below : Stack} {count : Nat} {fault : Fault}
    (linked : Linked table stack.above) (h : stack.popMany count = (.error fault, below)) :
    stack.depth < count ∧ fault = .stackUnderflow count stack.depth ∧ below = stack := by
  by_cases hlt : stack.depth < count
  · rw [Stack.popMany, if_pos hlt] at h
    obtain ⟨hfault, hbelow⟩ := Prod.mk.inj h
    exact ⟨hlt, (Except.error.inj hfault).symm, hbelow.symm⟩
  · obtain ⟨children, under, hpops⟩ := linked.popMany_eq (Nat.le_of_not_lt hlt)
    rw [hpops] at h
    cases h

/-- Taking the result of a linked stack fails for the number of its entries only, and then takes
nothing. -/
theorem takeResult_error {stack below : Stack} {fault : Fault} (linked : Linked table stack.above)
    (h : stack.takeResult = (.error fault, below)) :
    stack.depth ≠ 1 ∧ fault = .malformedAccept stack.depth ∧ below = stack := by
  rcases stack.takeResult_cases with ⟨state, tree, -, htakes⟩ | ⟨state, hstack, -⟩ | ⟨hne, htakes⟩
  · rw [htakes] at h
    cases h
  · rw [hstack] at linked
    exact absurd (linked.isSome_tree _ List.mem_cons_self) Bool.false_ne_true
  · rw [htakes] at h
    obtain ⟨hfault, hbelow⟩ := Prod.mk.inj h
    exact ⟨hne, (Except.error.inj hfault).symm, hbelow.symm⟩

/-- The result is taken out of the entry right above the start, which stays behind without it. -/
theorem takeResult_ok {stack below : Stack} {tree : ParseTree} (linked : Linked table stack.above)
    (h : stack.takeResult = (.ok tree, below)) :
    ∃ state, below.entries = [.start, ⟨state, none⟩] ∧
      table.next? 0 tree.symbol = some state := by
  rcases stack.takeResult_cases with ⟨state, found, hstack, htakes⟩ | ⟨_, -, htakes⟩ | ⟨-, htakes⟩
  · rw [htakes] at h
    obtain ⟨hfound, rfl⟩ := Prod.mk.inj h
    obtain rfl := Except.ok.inj hfound
    refine ⟨state, rfl, ?_⟩
    rw [hstack] at linked
    cases linked with
    | cons rest edge => exact edge
  · rw [htakes] at h
    cases h
  · rw [htakes] at h
    cases h

end Linked

/-! ### Sessions -/

namespace Session

variable {σ : Type} [TokenSource σ]

/-- No step finds a tree missing as long as the stack is linked. -/
theorem step_ne_missingSubtree {table : Table} {session : Session σ}
    (linked : session.finished = false → Linked table session.stack.above) (state : Nat) :
    session.step.1 ≠ .error (.internal (.missingSubtree state)) := by
  intro h
  cases hfin : session.finished with
  | true =>
    rw [step_of_finished hfin] at h
    cases h
  | false =>
    have hlinked := linked hfin
    have heffect := effect_step hfin
    rw [← peek_stack session] at hlinked
    generalize session.step = result at heffect h
    cases heffect with
    | popFault action lookup pops =>
      obtain ⟨-, rfl, -⟩ := hlinked.popMany_error pops
      cases h
    | takeFault action takes =>
      obtain ⟨-, rfl, -⟩ := hlinked.takeResult_error takes
      cases h
    | _ => cases h

/-- A step that accepts leaves one entry above the start, in the state that the start leads to over
the tree. -/
theorem entries_of_accepted {table : Table} {session : Session σ}
    (linked : session.finished = false → Linked table session.stack.above) {tree : ParseTree}
    (accepts : session.step.1 = .ok (.accepted tree)) :
    ∃ state, session.step.2.stack.entries = [.start, ⟨state, none⟩] ∧
      table.next? 0 tree.symbol = some state := by
  cases hfin : session.finished with
  | true =>
    rw [step_of_finished hfin] at accepts
    cases accepts
  | false =>
    have hlinked := linked hfin
    have heffect := effect_step hfin
    rw [← peek_stack session] at hlinked
    generalize session.step = result at heffect accepts ⊢
    cases heffect with
    | accept action takes =>
      cases accepts
      exact hlinked.takeResult_ok takes
    | _ => cases accepts

/-- Each entry above the start holds a tree, and the state below leads to its own over the root of
that tree. An accept takes the tree out of the only one. -/
theorem entries_linked (table : Table) (source : σ) (n : Nat) :
    let session := (start table source).after n
    (session.finished = false →
      session.stack.entries.head? = some .start ∧
      (∀ entry ∈ session.stack.entries.tail, entry.tree.isSome) ∧
      ∀ front lower upper back, session.stack.entries = front ++ lower :: upper :: back →
        ∃ tree, upper.tree = some tree ∧
          table.next? lower.state tree.symbol = some upper.state) ∧
    (∀ state, session.step.1 ≠ .error (.internal (.missingSubtree state)) ∧
      ∀ limit, (session.run limit).1 ≠ .failed (.internal (.missingSubtree state))) ∧
    (∀ tree, session.step.1 = .ok (.accepted tree) →
      ∃ state, session.step.2.stack.entries = [.start, ⟨state, none⟩] ∧
        table.next? 0 tree.symbol = some state) ∧
    (∀ limit tree, (session.run limit).1 = .accepted tree →
      ∃ state, (session.run limit).2.stack.entries = [.start, ⟨state, none⟩] ∧
        table.next? 0 tree.symbol = some state) := by
  intro session
  -- the steps of a run on this session are steps of the one it started from
  have hrun : ∀ {limit}, (session.run limit).1 ≠ .unfinished → ∃ m,
      session.run limit = (outcomeOf ((start table source).after m).step.1,
        ((start table source).after m).step.2) := by
    intro limit ends
    obtain ⟨m, hm⟩ := exists_run_eq ends
    exact ⟨n + m, by rw [hm, after_add]⟩
  refine ⟨?_, ?_, ?_, ?_⟩
  · intro unfinished
    have hlinked := linked_after table source n unfinished
    refine ⟨rfl, ?_, fun front lower upper back => hlinked.neighbours⟩
    intro entry mem
    exact hlinked.isSome_tree entry (List.mem_reverse.mp mem)
  · intro state
    refine ⟨step_ne_missingSubtree (linked_after table source n) state, ?_⟩
    intro limit failed
    obtain ⟨m, hm⟩ := hrun (by rw [failed]; exact nofun)
    rw [hm, outcomeOf_eq_failed] at failed
    exact step_ne_missingSubtree (linked_after table source m) state failed
  · intro tree accepts
    exact entries_of_accepted (linked_after table source n) accepts
  · intro limit tree accepted
    obtain ⟨m, hm⟩ := hrun (by rw [accepted]; exact nofun)
    rw [hm, outcomeOf_eq_accepted] at accepted
    rw [hm]
    exact entries_of_accepted (linked_after table source m) accepted

end Session

end ShiftReduce
