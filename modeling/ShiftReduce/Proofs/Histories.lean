import ShiftReduce.Stack.History
import Mathlib.Data.List.Induction

/-!
What a history leaves on a stack. The entries above the start are the ones pushed and not popped
since, in the order of their pushes, where what has been popped is told by counting alone. The
pushes that stand were made at heights that count up from zero, so an operation that lowers the
height takes off the last of them. An operation that fails changes nothing, unless it is a popping
of several entries that meets one without a tree.
-/

namespace ShiftReduce

/-- An entry without its tree. -/
def StackEntry.blank (entry : StackEntry) : StackEntry := { entry with tree := none }

namespace Stack

variable {history : List Operation} {operation : Operation} {place : Nat}

/-! ### Which pushes stand -/

/-- Of values that count up from zero, those below a bound come first. -/
theorem filter_lt_of_map_eq_range {f : Nat → Nat} {places : List Nat} {count bound : Nat}
    (counts : places.map f = List.range count) (le : bound ≤ count) :
    (places.filter fun place => f place < bound) = places.take bound := by
  have hfront : ∀ place ∈ places.take bound, f place < bound := by
    intro place mem
    have hmem := List.mem_map_of_mem (f := f) mem
    rw [List.map_take, counts, List.take_range, List.mem_range] at hmem
    omega
  have hback : ∀ place ∈ places.drop bound, ¬f place < bound := by
    intro place mem
    have hmem := List.mem_map_of_mem (f := f) mem
    rw [List.map_drop, counts, List.range_eq_range', List.drop_range', List.mem_range'_1] at hmem
    omega
  calc places.filter (fun place => f place < bound)
      = (places.take bound).filter (fun place => f place < bound) ++
          (places.drop bound).filter (fun place => f place < bound) := by
        rw [← List.filter_append, List.take_append_drop]
    _ = places.take bound ++ [] := by
        rw [List.filter_eq_self.mpr (by simpa using hfront),
          List.filter_eq_nil_iff.mpr (by simpa using hback)]
    _ = places.take bound := List.append_nil _

/-- An earlier push still stands if the last operation has not gone down to where it was made. -/
theorem stands_concat (lt : place < history.length) : Stands (history ++ [operation]) place ↔
    Stands history place ∧ height (history.take place) < operation.level (height history) := by
  have hplace : (history ++ [operation]).take place = history.take place :=
    List.take_append_of_le_length (Nat.le_of_lt lt)
  have hwhole : (history ++ [operation]).take (history.length + 1) = history ++ [operation] :=
    List.take_of_length_le (by simp)
  rw [Stands, hplace, List.length_append, List.length_singleton]
  constructor
  · intro stands
    refine ⟨fun moment le later => ?_, ?_⟩
    · have hlower := stands moment (Nat.le_succ_of_le le) later
      rwa [List.take_append_of_le_length le] at hlower
    · have hlower := stands (history.length + 1) (Nat.le_refl _) (Nat.lt_succ_of_lt lt)
      rwa [hwhole, height_concat] at hlower
  · rintro ⟨stands, hlast⟩ moment le later
    rcases Nat.le_or_eq_of_le_succ le with hle | rfl
    · rw [List.take_append_of_le_length hle]
      exact stands moment hle later
    · rwa [hwhole, height_concat]

/-- What the last operation pushes stands. -/
theorem stands_last : Stands (history ++ [operation]) history.length ↔
    height history < operation.level (height history) := by
  have hwhole : (history ++ [operation]).take (history.length + 1) = history ++ [operation] :=
    List.take_of_length_le (by simp)
  rw [Stands, List.take_append_of_le_length (Nat.le_refl _), List.take_length, List.length_append,
    List.length_singleton]
  constructor
  · intro stands
    have hlower := stands (history.length + 1) (Nat.le_refl _) (Nat.lt_succ_self _)
    rwa [hwhole, height_concat] at hlower
  · intro hlast moment le later
    obtain rfl : moment = history.length + 1 := by omega
    rwa [hwhole, height_concat]

theorem lt_of_mem_standing (mem : place ∈ standing history) : place < history.length :=
  List.mem_range.mp (List.mem_filter.mp mem).1

/-- An operation leaves the pushes that were made below the height it goes down to. -/
theorem standing_concat (history : List Operation) (operation : Operation) :
    standing (history ++ [operation]) =
      ((standing history).filter fun place =>
        height (history.take place) < operation.level (height history)) ++
      if height history < operation.level (height history) then [history.length] else [] := by
  rw [standing, standing, List.length_append, List.length_singleton, List.range_succ,
    List.filter_append, List.filter_filter]
  congr 1
  · refine List.filter_congr fun place mem => ?_
    rw [decide_eq_decide.mpr (stands_concat (List.mem_range.mp mem)), Bool.decide_and,
      Bool.and_comm]
  · by_cases hlast : height history < operation.level (height history)
    · rw [if_pos hlast, List.filter_eq_self]
      simpa [stands_last] using hlast
    · rw [if_neg hlast, List.filter_eq_nil_iff]
      simpa [stands_last] using hlast

/-- Operations other than pushes leave no more entries than there were. -/
theorem Operation.level_cases (operation : Operation) (height : Nat) :
    (∃ state tree, operation = .push state tree) ∨ operation.level height ≤ height := by
  cases operation with
  | push state tree => exact Or.inl ⟨state, tree, rfl⟩
  | pop => exact Or.inr (Nat.sub_le _ _)
  | popMany count =>
    rw [Operation.level]
    split <;> omega
  | takeResult => exact Or.inr (Nat.le_refl _)

/-- The heights at which the pushes that stand were made count up from zero to the height
reached. -/
def CountsUp (history : List Operation) : Prop :=
  (standing history).map (fun place => height (history.take place)) = List.range (height history)

namespace CountsUp

theorem standing_push (counts : CountsUp history) (state : Nat) (tree : Option ParseTree) :
    standing (history ++ [.push state tree]) = standing history ++ [history.length] := by
  have hbelow : ∀ place ∈ standing history, height (history.take place) < height history + 1 := by
    intro place mem
    have hmem := List.mem_map_of_mem (f := fun place => height (history.take place)) mem
    rw [counts, List.mem_range] at hmem
    omega
  rw [standing_concat, Operation.level, if_pos (Nat.lt_succ_self _),
    List.filter_eq_self.mpr (by simpa using hbelow)]

/-- What lowers the height takes off the last pushes. -/
theorem standing_lower (counts : CountsUp history)
    (le : operation.level (height history) ≤ height history) :
    standing (history ++ [operation]) =
      (standing history).take (operation.level (height history)) := by
  rw [standing_concat, filter_lt_of_map_eq_range counts le, if_neg (Nat.not_lt_of_le le),
    List.append_nil]

theorem concat (counts : CountsUp history) (operation : Operation) :
    CountsUp (history ++ [operation]) := by
  have hearlier : ∀ place ∈ standing history,
      height ((history ++ [operation]).take place) = height (history.take place) := by
    intro place mem
    rw [List.take_append_of_le_length (Nat.le_of_lt (lt_of_mem_standing mem))]
  rw [CountsUp, height_concat]
  rcases operation.level_cases (height history) with ⟨state, tree, rfl⟩ | hle
  · rw [counts.standing_push, List.map_append, List.map_congr_left hearlier, counts,
      List.map_singleton, List.take_left, Operation.level, List.range_succ]
  · rw [counts.standing_lower hle,
      List.map_congr_left fun place mem => hearlier place (List.mem_of_mem_take mem),
      List.map_take, counts, List.take_range, Nat.min_eq_left hle]

end CountsUp

theorem countsUp (history : List Operation) : CountsUp history := by
  induction history using List.reverseRecOn with
  | nil => rfl
  | append_singleton history operation ih => exact ih.concat operation

theorem length_standing (history : List Operation) :
    (standing history).length = height history := by
  simpa using congrArg List.length (countsUp history)

/-! ### What has become of an entry -/

theorem keepsTree_concat (lt : place < history.length) :
    KeepsTree (history ++ [operation]) place ↔
      KeepsTree history place ∧ (operation = .takeResult → height history ≠ 1) := by
  rw [KeepsTree, List.length_append, List.length_singleton]
  constructor
  · intro keeps
    refine ⟨fun moment le later asked => ?_, fun asked => ?_⟩
    · have hone := keeps moment (Nat.le_succ_of_le le) later (by
        rw [List.getElem?_append_left (List.getElem?_eq_some_iff.mp asked).1, asked])
      rwa [List.take_append_of_le_length le] at hone
    · have hone := keeps history.length (Nat.le_succ _) lt (by simp [asked])
      rwa [List.take_left] at hone
  · rintro ⟨keeps, hlast⟩ moment le later asked
    rcases Nat.lt_trichotomy moment history.length with hlt | rfl | hgt
    · rw [List.getElem?_append_left hlt] at asked
      rw [List.take_append_of_le_length (Nat.le_of_lt hlt)]
      exact keeps moment (Nat.le_of_lt hlt) later asked
    · rw [List.getElem?_concat_length] at asked
      rw [List.take_left]
      exact hlast (Option.some.inj asked)
    · rw [List.getElem?_eq_none (by simp; omega)] at asked
      cases asked

/-- Only an operation that asks for the result of a single entry changes what was pushed before. -/
theorem entryOf?_concat (lt : place < history.length)
    (kept : operation = .takeResult → height history ≠ 1) :
    entryOf? (history ++ [operation]) place = entryOf? history place := by
  have hkeeps : KeepsTree (history ++ [operation]) place ↔ KeepsTree history place :=
    (keepsTree_concat lt).trans (and_iff_left kept)
  simp only [entryOf?, List.getElem?_append_left lt, hkeeps]

theorem entryOf?_takeResult (lt : place < history.length) (single : height history = 1) :
    entryOf? (history ++ [.takeResult]) place =
      (entryOf? history place).map StackEntry.blank := by
  have hkeeps : ¬KeepsTree (history ++ [.takeResult]) place :=
    fun keeps => ((keepsTree_concat lt).mp keeps).2 rfl single
  simp only [entryOf?, List.getElem?_append_left lt, if_neg hkeeps]
  split <;> simp [StackEntry.blank]

theorem entryOf?_last (history : List Operation) (state : Nat) (tree : Option ParseTree) :
    entryOf? (history ++ [.push state tree]) history.length = some ⟨state, tree⟩ := by
  have hkeeps : KeepsTree (history ++ [.push state tree]) history.length := by
    intro moment le later asked
    rw [List.getElem?_eq_none (by simp; omega)] at asked
    cases asked
  simp [entryOf?, hkeeps]

/-! ### What an operation does -/

theorem depth_perform (stack : Stack) (operation : Operation) :
    (stack.perform operation).2.depth = operation.level stack.depth := by
  obtain ⟨above⟩ := stack
  cases operation with
  | push state tree => rfl
  | pop => cases above <;> rfl
  | popMany count =>
    rw [perform, popMany, Operation.level]
    split
    · rfl
    · exact List.length_drop
  | takeResult =>
    rcases takeResult_cases ⟨above⟩ with ⟨state, tree, hstack, htakes⟩ | ⟨_, -, htakes⟩ | ⟨-, htakes⟩
    · rw [perform, htakes, hstack]
      rfl
    · rw [perform, htakes, Operation.level]
    · rw [perform, htakes, Operation.level]

theorem depth_reached (history : List Operation) : (reached history).depth = height history := by
  induction history using List.reverseRecOn with
  | nil => rfl
  | append_singleton history operation ih =>
    rw [reached_concat, depth_perform, ih, height_concat]

theorem above_pop (stack : Stack) : stack.pop.2.above =
    stack.above.drop (stack.depth - Operation.pop.level stack.depth) := by
  obtain ⟨_ | ⟨entry, above⟩⟩ := stack
  · rfl
  · simp [pop, depth, Operation.level]

theorem above_popMany (stack : Stack) (count : Nat) : (stack.popMany count).2.above =
    stack.above.drop (stack.depth - (Operation.popMany count).level stack.depth) := by
  rw [popMany, Operation.level]
  split
  · rw [Nat.sub_self, List.drop_zero]
  · rw [Nat.sub_sub_self (by omega)]

theorem above_takeResult (stack : Stack) : stack.takeResult.2.above =
    if stack.depth = 1 then stack.above.map StackEntry.blank else stack.above := by
  obtain ⟨_ | ⟨⟨state, _ | tree⟩, _ | ⟨entry, above⟩⟩⟩ := stack <;>
    simp [takeResult, depth, StackEntry.blank]

/-! ### What a history leaves -/

/-- The pushes that stand tell the entries above the start. -/
def Tells (history : List Operation) : Prop :=
  (standing history).map (entryOf? history) = (reached history).above.reverse.map some

namespace Tells

/-- What lowers the height takes as many entries off. -/
theorem lower (tells : Tells history) {operation : Operation}
    (le : operation.level (height history) ≤ height history) (other : operation ≠ .takeResult)
    (drops : (reached (history ++ [operation])).above =
      (reached history).above.drop (height history - operation.level (height history))) :
    Tells (history ++ [operation]) := by
  have hentries : ∀ place ∈ (standing history).take (operation.level (height history)),
      entryOf? (history ++ [operation]) place = entryOf? history place := by
    intro place mem
    exact entryOf?_concat (lt_of_mem_standing (List.mem_of_mem_take mem)) fun h => absurd h other
  rw [Tells, (countsUp history).standing_lower le, List.map_congr_left hentries, List.map_take,
    tells, drops, ← List.map_take, List.take_reverse]
  rw [show (reached history).above.length = height history from depth_reached history]

theorem concat (tells : Tells history) (operation : Operation) :
    Tells (history ++ [operation]) := by
  cases operation with
  | push state tree =>
    have hentries : ∀ place ∈ standing history,
        entryOf? (history ++ [.push state tree]) place = entryOf? history place :=
      fun place mem => entryOf?_concat (lt_of_mem_standing mem) (by simp)
    rw [Tells, (countsUp history).standing_push, List.map_append, List.map_congr_left hentries,
      tells, List.map_singleton, entryOf?_last, reached_concat]
    simp [perform, push]
  | pop =>
    refine tells.lower (Nat.sub_le _ _) (by simp) ?_
    rw [reached_concat, ← depth_reached]
    exact above_pop _
  | popMany count =>
    refine tells.lower ?_ (by simp) ?_
    · rw [Operation.level]
      split <;> omega
    · rw [reached_concat, ← depth_reached]
      exact above_popMany _ count
  | takeResult =>
    have hstanding : standing (history ++ [.takeResult]) = standing history := by
      rw [(countsUp history).standing_lower (Nat.le_refl _), Operation.level, ← length_standing,
        List.take_length]
    rw [Tells, hstanding, reached_concat, perform, above_takeResult, depth_reached]
    by_cases hsingle : height history = 1
    · have hblank : (standing history).map (entryOf? (history ++ [.takeResult])) =
          ((standing history).map (entryOf? history)).map (Option.map StackEntry.blank) := by
        rw [List.map_map]
        exact List.map_congr_left fun place mem =>
          entryOf?_takeResult (lt_of_mem_standing mem) hsingle
      rw [if_pos hsingle, hblank, tells]
      simp [Function.comp_def]
    · rw [if_neg hsingle, List.map_congr_left fun place mem =>
        entryOf?_concat (lt_of_mem_standing mem) fun _ => hsingle, tells]

end Tells

theorem tells (history : List Operation) : Tells history := by
  induction history using List.reverseRecOn with
  | nil => rfl
  | append_singleton history operation ih => exact ih.concat operation

/-- Above the start are the entries pushed and not popped since, in the order of their pushes. -/
theorem entries_reached (history : List Operation) :
    (reached history).entries = .start :: held history := by
  have hheld : held history =
      ((standing history).map (entryOf? history)).filterMap id := by
    rw [held, List.filterMap_map]
    rfl
  rw [entries, hheld, tells history, List.filterMap_map]
  simp

/-! ### Failures -/

/-- Of the operations that fail only a popping that meets an entry without a tree changes the stack,
and it always does. -/
theorem changes_iff {stack next : Stack} {operation : Operation} {fault : Fault}
    (fails : stack.perform operation = (.error fault, next)) :
    next ≠ stack ↔ ∃ count state, operation = .popMany count ∧ fault = .missingSubtree state := by
  obtain ⟨above⟩ := stack
  cases operation with
  | push state tree => cases fails
  | pop =>
    cases above with
    | nil =>
      obtain ⟨-, rfl⟩ := Prod.mk.inj fails
      simp [pop]
    | cons entry above => cases fails
  | popMany count =>
    rw [perform, popMany] at fails
    split at fails
    · obtain ⟨hfault, rfl⟩ := Prod.mk.inj fails
      obtain rfl := Except.error.inj hfault
      simp
    · rename_i hle
      obtain ⟨hfault, rfl⟩ := Prod.mk.inj fails
      rcases subtrees_cases (above.take count).reverse with
        ⟨trees, hok, -⟩ | ⟨lower, entry, upper, hsplit, -, -, herror⟩
      · rw [hok] at hfault
        cases hfault
      · rw [herror] at hfault
        -- an entry was met, so at least one has come off
        refine iff_of_true (fun hsame => ?_)
          ⟨count, entry.state, rfl, (Except.error.inj hfault).symm⟩
        have hdropped := congrArg (fun stack => stack.above.length) hsame
        have htaken := congrArg List.length hsplit
        simp only [List.length_drop] at hdropped
        simp only [List.length_reverse, List.length_take, List.length_append, List.length_cons]
          at htaken
        omega
  | takeResult =>
    rcases takeResult_cases ⟨above⟩ with ⟨_, _, -, htakes⟩ | ⟨_, -, htakes⟩ | ⟨-, htakes⟩
    · rw [perform, htakes] at fails
      cases fails
    · rw [perform, htakes] at fails
      obtain ⟨-, rfl⟩ := Prod.mk.inj fails
      simp
    · rw [perform, htakes] at fails
      obtain ⟨-, rfl⟩ := Prod.mk.inj fails
      simp

/-- What a stack holds above its start is what has been pushed and not popped since. Of the
operations that fail only the popping of several entries changes it. -/
theorem entries_of_history (history : List Operation) :
    let stack := reached history
    stack.entries = ⟨0, none⟩ :: held history ∧
    stack.depth = stack.entries.length - 1 ∧
    (stack.depth = 0 → stack.perform .pop = (.error (.stackUnderflow 1 0), stack)) ∧
    (∀ count, stack.depth < count →
      stack.perform (.popMany count) = (.error (.stackUnderflow count stack.depth), stack)) ∧
    (stack.depth ≠ 1 →
      stack.perform .takeResult = (.error (.malformedAccept stack.depth), stack)) ∧
    (∀ state, stack.entries = [⟨0, none⟩, ⟨state, none⟩] →
      stack.perform .takeResult = (.error (.missingSubtree state), stack)) ∧
    (∀ handout next, stack.perform .takeResult = (.ok handout, next) →
      ∃ state tree, handout = .result tree ∧ stack.entries = [⟨0, none⟩, ⟨state, some tree⟩] ∧
        next.entries = [⟨0, none⟩, ⟨state, none⟩]) ∧
    ∀ operation fault next, stack.perform operation = (.error fault, next) →
      (next ≠ stack ↔
        ∃ count state, operation = .popMany count ∧ fault = .missingSubtree state) := by
  intro stack
  refine ⟨entries_reached history, ?_, ?_, ?_, ?_, ?_, ?_, fun _ _ _ fails => changes_iff fails⟩
  · rw [length_entries, Nat.add_sub_cancel]
  · -- popping at depth 0
    intro hdepth
    rw [show stack = empty from congrArg Stack.mk (List.length_eq_zero_iff.mp hdepth)]
    rfl
  · -- popping more than there are
    intro count hcount
    rw [perform, popMany_of_lt hcount]
    rfl
  · -- taking a result that is not alone
    intro hdepth
    rcases stack.takeResult_cases with ⟨_, _, hstack, -⟩ | ⟨_, hstack, -⟩ | ⟨-, htakes⟩
    · exact absurd (congrArg depth hstack) hdepth
    · exact absurd (congrArg depth hstack) hdepth
    · rw [perform, htakes]
      rfl
  · -- taking a result that is not there
    intro state hentries
    have habove : stack.above = [⟨state, none⟩] := by
      simpa using congrArg List.reverse (List.cons.inj hentries).2
    simp [perform, takeResult, habove, Except.map]
  · -- a result that is taken
    intro handout next takes
    rcases stack.takeResult_cases with ⟨state, tree, hstack, htakes⟩ | ⟨_, -, htakes⟩ | ⟨-, htakes⟩
    · rw [perform, htakes] at takes
      obtain ⟨hhandout, rfl⟩ := Prod.mk.inj takes
      exact ⟨state, tree, (Except.ok.inj hhandout).symm, congrArg entries hstack, rfl⟩
    · rw [perform, htakes] at takes
      cases takes
    · rw [perform, htakes] at takes
      cases takes

/-- The tree of the first entry is taken while it is the only one; the popping of three fails and
takes none, and that of one takes the entry without a tree that it fails on. -/
example : held [.push 3 (some (.leaf (.bare .done 1))), .takeResult, .push 4 none, .popMany 3,
    .push 5 none, .popMany 1] = [⟨3, none⟩, ⟨4, none⟩] := by decide

end Stack

end ShiftReduce
