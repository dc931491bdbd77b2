import ShiftReduce.Proofs.Acceptance
import ShiftReduce.Proofs.Marks

/-!
Parsing ends. A session has made one move for every leaf and node on its stack, and these are paid
for by the tokens it has shifted: a tree by the credit of its leaves, and an entry of the stack by
the credit that its symbol has left over. So between two shifts there are only so many reductions,
whatever the tokens, and on tokens with an end among them every session comes to one.
-/

namespace ShiftReduce

theorem creditAll_append (credit : Symbol → Nat) (front back : List Symbol) :
    creditAll credit (front ++ back) = creditAll credit front + creditAll credit back := by
  induction front with
  | nil => rw [List.nil_append, creditAll, Nat.zero_add]
  | cons symbol front ih => rw [List.cons_append, creditAll, creditAll, ih, Nat.add_assoc]

/-- On a linked stack the credits pay for the entries, if along every edge the credit of its symbol
and what the state below has in reserve pay for one entry and for the reserve above. -/
theorem Linked.length_le_creditAll {table : Table} (credit : Symbol → Nat) (reserve : Nat → Nat)
    (empty : reserve 0 = 0)
    (pays : ∀ state symbol next, table.next? state symbol = some next →
      1 + reserve next ≤ reserve state + credit symbol)
    {above : List StackEntry} (linked : Linked table above) :
    above.length + reserve (Stack.mk above).topState ≤
      creditAll credit ((Stack.mk above).trees.map ParseTree.symbol) := by
  induction linked with
  | nil => exact Nat.le_of_eq ((Nat.zero_add _).trans empty)
  | @cons below state tree rest edge ih =>
    have hpays := pays _ _ _ edge
    have htrees := Stack.trees_push ⟨below⟩ state tree
    rw [Stack.push] at htrees
    rw [htrees, List.map_append, creditAll_append, List.length_cons]
    change below.length + 1 + reserve state ≤ _ + (credit tree.symbol + 0)
    omega

namespace TokenSource

variable {σ : Type} [TokenSource σ]

theorem getElem?_take (source : σ) {index count : Nat} (lt : index < count) :
    (take source count).1[index]? = some (tokenAt source index) := by
  induction index generalizing source count with
  | zero =>
    obtain ⟨count, rfl⟩ := Nat.exists_eq_succ_of_ne_zero (Nat.ne_of_gt lt)
    rfl
  | succ index ih =>
    obtain ⟨count, rfl⟩ := Nat.exists_eq_succ_of_ne_zero (Nat.ne_of_gt (Nat.zero_lt_of_lt lt))
    exact ih (next source).2 (Nat.lt_of_succ_lt_succ lt)

end TokenSource

/-- A script hands out an end token behind those that are none. -/
theorem Script.kind_tokenAt (endLine : Nat) : ∀ pending : List Token,
    (TokenSource.tokenAt (⟨pending, endLine⟩ : Script)
      (pending.takeWhile fun token => token.kind ≠ .endOfInput).length).kind = .endOfInput
  | [] => rfl
  | token :: pending => by
    by_cases hend : token.kind = .endOfInput
    · rw [List.takeWhile_cons_of_neg (by simp [hend])]
      exact hend
    · rw [List.takeWhile_cons_of_pos (by simp [hend])]
      exact kind_tokenAt endLine pending

namespace FiniteSource

variable {σ : Type} [FiniteSource σ]

/-- Behind its tokens a finite source hands out an end token. -/
theorem kind_tokenAt (source : σ) :
    (TokenSource.tokenAt source (tokens source).length).kind = .endOfInput := by
  fun_induction tokens source with
  | case1 source ends => exact ends
  | case2 source goes ih => exact ih

theorem length_tokens_le (source : σ) : (tokens source).length ≤ remaining source := by
  fun_induction tokens source with
  | case1 source ends => exact Nat.zero_le _
  | case2 source goes ih =>
    have hnext := remaining_next source goes
    rw [List.length_cons]
    omega

end FiniteSource

namespace Session

variable {σ : Type} [TokenSource σ]

/-- Only what some state shifts is shifted. -/
theorem action_of_shifted {n : Nat} {session : Session σ} :
    ∀ token ∈ session.shifted n,
      ∃ state next, session.table.action state token.kind = .shift next := by
  induction n generalizing session with
  | zero => exact fun _ mem => nomatch mem
  | succ n ih =>
    intro token mem
    rw [shifted, List.mem_append] at mem
    rcases mem with hnow | hlater
    · cases hfin : session.finished with
      | true =>
        rw [step_of_finished hfin] at hnow
        cases hnow
      | false =>
        have heffect := effect_step hfin
        rw [← peek_table session]
        generalize session.step = result at heffect hnow
        cases heffect with
        | shift action =>
          obtain rfl := List.mem_singleton.mp hnow
          exact ⟨_, _, action⟩
        | _ => cases hnow
    · rw [← table_step session]
      exact ih token hlater

/-- What has been shifted stands in front of a token that no state shifts. -/
theorem length_shifted_le {table : Table} {source : σ} {n m : Nat}
    (barred : ∀ state next, table.action state (TokenSource.tokenAt source n).kind ≠ .shift next)
    (unfinished : ((start table source).after m).finished = false) :
    ((start table source).shifted m).length ≤ n := by
  refine Nat.le_of_not_lt fun hlt => ?_
  have hat := TokenSource.getElem?_take source hlt
  rw [take_shifted unfinished] at hat
  obtain ⟨state, next, haction⟩ := action_of_shifted _ (List.mem_of_getElem? hat)
  exact barred state next haction

/-- A run with as many steps as finish the session ends. -/
theorem run_ne_unfinished {session : Session σ} (unfinished : session.finished = false)
    {limit : Nat} (finished : (session.after limit).finished = true) :
    (session.run limit).1 ≠ .unfinished := by
  induction limit generalizing session with
  | zero =>
    rw [after, unfinished] at finished
    cases finished
  | succ limit ih =>
    rw [run_succ]
    by_cases hstep : outcomeOf session.step.1 = .unfinished
    · rw [if_pos hstep]
      exact ih ((outcomeOf_step_eq_unfinished unfinished).mp hstep) finished
    · rw [if_neg hstep]
      exact hstep

end Session

namespace Language

variable {σ : Type} [TokenSource σ]

/-- Behind a condition and its colon one credit is kept for the alternative, which has none. -/
def reserve (state : Nat) : Nat := if state = 49 ∨ state = 56 then 1 else 0

theorem reserve_check : ∀ state < rows.length, ∀ symbol, ∀ next ∈ table.next? state symbol,
    1 + reserve next ≤ reserve state + credit symbol := by
  decide +kernel

/-- No state shifts the end of the input. -/
theorem end_not_shifted : ∀ state next, table.action state .endOfInput ≠ .shift next := by
  have hcheck : ∀ state < rows.length, table.next? state (.terminal .endOfInput) = none := by
    decide +kernel
  intro state next haction
  have hnext := Table.next?_of_shift haction
  rw [hcheck state (Table.lt_of_next? hnext)] at hnext
  cases hnext

/-- An unfinished session has made at most seven moves for each token it has shifted. -/
theorem moves_le (source : σ) {m : Nat}
    (unfinished : ((Session.start table source).after m).finished = false) :
    m ≤ 7 * ((Session.start table source).shifted m).length := by
  obtain ⟨moves, hlength, -, hbuilds⟩ := Session.builds_after table source m unfinished
  have hsound := Session.Sound.after annotated source unfinished
  have htable : ((Session.start table source).after m).table = table := Session.table_after _ m
  have hlinked := hsound.linked
  have hderives := hsound.derives
  rw [htable] at hlinked hderives
  have hmoves : ParseTree.sizeAll ((Session.start table source).after m).stack.trees = m := by
    rw [← ParseTree.length_postorderAll, hbuilds.length_eq, hlength]
  have hsizes := Derivation.sizeAll_add_creditAll_le credit
    ((Session.start table source).after m).stack.trees fun tree mem =>
      (hderives tree mem).size_add_credit_le credit (fun _ => Nat.le_refl 7) credit_pays
  have hentries := hlinked.length_le_creditAll credit reserve rfl fun state symbol next h =>
    reserve_check state (Table.lt_of_next? h) symbol next h
  have hleaves := Session.leaves_after m unfinished
  rw [hmoves, hleaves, hlinked.length_trees] at hsizes
  change _ ≤ 7 * ((Session.start table source).shifted m).length + _ at hsizes
  change _ ≤ creditAll credit
    (((Session.start table source).after m).stack.trees.map ParseTree.symbol) at hentries
  omega

/-- A session on a source with an end token has finished after seven steps for each token in front
of it and one more. -/
theorem finished_after (source : σ) {n : Nat}
    (ends : (TokenSource.tokenAt source n).kind = .endOfInput) :
    ((Session.start table source).after (7 * n + 1)).finished = true := by
  rw [← Bool.not_eq_false]
  intro hunfinished
  have hmoves := moves_le source hunfinished
  have hshifted := Session.length_shifted_le (ends.symm ▸ end_not_shifted) hunfinished
  omega

/-- Parsing a finite source ends. -/
theorem parse_ne_unfinished {τ : Type} [FiniteSource τ] (source : τ) :
    (parseWithin (stepsFor source) source).1 ≠ .unfinished := by
  have hfinished := finished_after source (FiniteSource.kind_tokenAt source)
  have hends := Session.run_ne_unfinished rfl hfinished
  have henough : 7 * (FiniteSource.tokens source).length + 1 ≤ stepsFor source :=
    Nat.succ_le_succ (Nat.mul_le_mul_left 7 (FiniteSource.length_tokens_le source))
  rw [parseWithin, Session.run_eq_of_le rfl hends henough]
  exact hends

/-- A session ends after seven steps for each token in front of the first end and one more, and more
steps change nothing. -/
theorem parse_ends (tokens : List Token) :
    let bound := 7 * (tokens.takeWhile fun token => token.kind ≠ .endOfInput).length + 1
    ((Session.start table (Script.ofList tokens)).after bound).finished = true ∧
    (parseWithin bound (Script.ofList tokens)).1 ≠ .unfinished ∧
    (∀ limit, bound ≤ limit →
      parseWithin limit (Script.ofList tokens) = parseWithin bound (Script.ofList tokens)) ∧
    parseTokens tokens = (parseWithin bound (Script.ofList tokens)).1 := by
  intro bound
  have hfinished := finished_after (Script.ofList tokens) (Script.kind_tokenAt _ tokens)
  have hends : (parseWithin bound (Script.ofList tokens)).1 ≠ .unfinished :=
    Session.run_ne_unfinished rfl hfinished
  have hmore : ∀ limit, bound ≤ limit →
      parseWithin limit (Script.ofList tokens) = parseWithin bound (Script.ofList tokens) :=
    fun limit le => Session.run_eq_of_le rfl hends le
  have henough : bound ≤ stepsFor (Script.ofList tokens) :=
    Nat.succ_le_succ (Nat.mul_le_mul_left 7 (List.takeWhile_prefix _).length_le)
  exact ⟨hfinished, hends, hmore, congrArg Prod.fst (hmore _ henough)⟩

end Language

end ShiftReduce
