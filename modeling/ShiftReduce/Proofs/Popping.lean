import ShiftReduce.Proofs.Linked
import Mathlib.Data.List.Induction

/-!
Popping many entries against popping one at a time. Popping goes from the top downwards and a list
of children from the bottom upwards, so where all entries hold a tree the one is the other reversed,
and where some do not, the one that is named is the last that popping comes to. The entries are gone
in either case. What has been pushed comes back as it was.
-/

namespace ShiftReduce.Stack

/-- Takes entries off one at a time, as many as asked for, and lists them as they come, unless the
stack runs out of them. -/
def popEach (stack : Stack) : (count : Nat) → Except Fault (List StackEntry) × Stack
  | 0 => (.ok [], stack)
  | count + 1 =>
    match stack.pop with
    | (.error fault, stack) => (.error fault, stack)
    | (.ok entry, below) =>
      let rest := popEach below count
      (rest.1.map (entry :: ·), rest.2)

/-- Pushes trees one after another, each in a state. -/
def pushAll (stack : Stack) (pushes : List (Nat × ParseTree)) : Stack :=
  pushes.foldl (fun stack push => stack.push push.1 (some push.2)) stack

/-- Popping does not fail while there are entries, and gives out the topmost ones. -/
theorem popEach_of_le {stack : Stack} {count : Nat} (le : count ≤ stack.depth) :
    stack.popEach count = (.ok (stack.above.take count), ⟨stack.above.drop count⟩) := by
  induction count generalizing stack with
  | zero => rfl
  | succ count ih =>
    obtain ⟨_ | ⟨entry, above⟩⟩ := stack
    · cases le
    · have hrest : (Stack.mk above).popEach count = (.ok (above.take count), ⟨above.drop count⟩) :=
        ih (Nat.le_of_succ_le_succ le)
      rw [popEach, pop]
      simp only [hrest]
      rfl

theorem isSome_of_map_eq {entries : List StackEntry} {trees : List ParseTree}
    (h : entries.map StackEntry.tree = trees.map some) : ∀ entry ∈ entries, entry.tree.isSome := by
  intro entry mem
  have hmem : entry.tree ∈ trees.map some := h ▸ List.mem_map_of_mem mem
  obtain ⟨tree, -, htree⟩ := List.mem_map.mp hmem
  rw [← htree, Option.isSome_some]

/-- Seen from the top, the children are the trees of the entries from the last to the first, or the
last entry without one is named. -/
theorem popMany_cases {stack : Stack} {count : Nat} (le : count ≤ stack.depth) :
    (∃ trees, (stack.popMany count).1 = .ok trees ∧
      (stack.above.take count).map StackEntry.tree = trees.reverse.map some) ∨
    ∃ upper entry lower, stack.above.take count = upper ++ entry :: lower ∧ entry.tree = none ∧
      (∀ other ∈ lower, other.tree.isSome) ∧
      (stack.popMany count).1 = .error (.missingSubtree entry.state) := by
  rw [popMany_of_le le]
  -- the children are looked for from the bottom upwards, so everything is turned round
  rcases subtrees_cases (stack.above.take count).reverse with
    ⟨trees, hok, htrees⟩ | ⟨lower, entry, upper, hsplit, hnone, hlower, herror⟩
  · refine Or.inl ⟨trees, hok, ?_⟩
    rw [List.map_reverse, ← htrees, List.map_reverse, List.reverse_reverse]
  · refine Or.inr ⟨upper.reverse, entry, lower.reverse, ?_, hnone, ?_, herror⟩
    · rw [← List.reverse_reverse (stack.above.take count), hsplit]
      simp
    · simpa using hlower

theorem popMany_pushAll (stack : Stack) (pushes : List (Nat × ParseTree)) :
    (stack.pushAll pushes).popMany pushes.length = (.ok (pushes.map Prod.snd), stack) := by
  induction pushes using List.reverseRecOn with
  | nil => exact popMany_zero stack
  | append_singleton pushes last ih =>
    have hlast : stack.pushAll (pushes ++ [last]) =
        (stack.pushAll pushes).push last.1 (some last.2) := List.foldl_append
    rw [hlast, List.length_append, List.length_singleton, popMany_push last.1 last.2 ih,
      List.map_append, List.map_singleton]

/-- Popping entries together leaves what popping them one at a time leaves, and hands out their
trees in the opposite order or names the lowest entry without one. -/
theorem popMany_eq_popEach (stack : Stack) (count : Nat) :
    (count ≤ stack.depth → ∃ popped below,
      stack.popEach count = (.ok popped, below) ∧ popped.length = count ∧
      (stack.popMany count).2 = below ∧
      ((∃ trees, (stack.popMany count).1 = .ok trees) ↔ ∀ entry ∈ popped, entry.tree.isSome) ∧
      (∀ trees, (stack.popMany count).1 = .ok trees →
        popped.map StackEntry.tree = trees.reverse.map some) ∧
      ∀ fault, (stack.popMany count).1 = .error fault →
        ∃ upper entry lower, popped = upper ++ entry :: lower ∧ entry.tree = none ∧
          (∀ other ∈ lower, other.tree.isSome) ∧ fault = .missingSubtree entry.state) ∧
    (stack.depth < count →
      stack.popMany count = (.error (.stackUnderflow count stack.depth), stack)) ∧
    (∀ trees, (stack.popMany count).1 = .ok trees → trees.length = count) ∧
    ∀ pushes : List (Nat × ParseTree),
      (stack.pushAll pushes).popMany pushes.length = (.ok (pushes.map Prod.snd), stack) := by
  refine ⟨fun le => ?_, popMany_of_lt, fun trees hok => ?_, stack.popMany_pushAll⟩
  · refine ⟨_, _, popEach_of_le le, List.length_take_of_le le, ?_, ?_⟩
    · rw [popMany_of_le le]
    · rcases popMany_cases le with
        ⟨trees, hok, htrees⟩ | ⟨upper, entry, lower, hsplit, hnone, hlower, herror⟩
      · refine ⟨iff_of_true ⟨trees, hok⟩ (isSome_of_map_eq htrees), fun other hother => ?_,
          fun fault hfault => ?_⟩
        · obtain rfl := Except.ok.inj (hok.symm.trans hother)
          exact htrees
        · cases hok.symm.trans hfault
      · refine ⟨iff_of_false ?_ fun all => ?_, fun trees hok => ?_, fun fault hfault => ?_⟩
        · rintro ⟨trees, hok⟩
          cases herror.symm.trans hok
        · have hsome := all entry (by simp [hsplit])
          rw [hnone] at hsome
          cases hsome
        · cases herror.symm.trans hok
        · exact ⟨upper, entry, lower, hsplit, hnone, hlower,
            Except.error.inj (hfault.symm.trans herror)⟩
  · exact (popMany_ok (Prod.ext hok rfl)).1

/-- Four entries, of which only the second from the top holds a tree. -/
def gappyStack : Stack := ⟨[⟨4, none⟩, ⟨3, some (.leaf (.bare .done 1))⟩, ⟨2, none⟩, ⟨1, none⟩]⟩

/-- Of three entries popped together the lowest is named, though one at a time a higher one without a
tree comes first. All three are gone then, and five are too many to begin with. -/
theorem popMany_eq_popEach_gaps :
    3 ≤ gappyStack.depth ∧
    gappyStack.popEach 3 = (.ok (gappyStack.above.take 3), (gappyStack.popMany 3).2) ∧
    (¬∃ trees, (gappyStack.popMany 3).1 = .ok trees) ∧
    (gappyStack.popMany 3).1 = .error (.missingSubtree 2) ∧
    gappyStack.depth < 5 ∧ gappyStack.popMany 5 = (.error (.stackUnderflow 5 4), gappyStack) := by
  have hle : 3 ≤ gappyStack.depth := by decide
  have hlt : gappyStack.depth < 5 := by decide
  obtain ⟨hpops, -⟩ := popMany_eq_popEach gappyStack 3
  obtain ⟨popped, below, heach, -, rfl, hok, -⟩ := hpops hle
  obtain ⟨-, hmany, -⟩ := popMany_eq_popEach gappyStack 5
  obtain rfl : gappyStack.above.take 3 = popped := Except.ok.inj (Prod.mk.inj heach).1
  have hgap : ¬∃ trees, (gappyStack.popMany 3).1 = .ok trees := by
    intro htrees
    have hsome := hok.mp htrees ⟨4, none⟩ (by decide)
    cases hsome
  exact ⟨hle, heach, hgap, rfl, hlt, hmany hlt⟩

end ShiftReduce.Stack
