import ShiftReduce.Tree.Basic
import ShiftReduce.Error

/-!
The parser's stack of automaton states and half-built subtrees. Below every entry lies the start
entry, state 0 without a tree; it is no part of the data, so nothing can pop it, and the depth
counts only what lies above it. An operation that fails leaves the stack as it was, with one
exception: popping several entries takes them off even where one of them turns out to hold no
tree.
-/

namespace ShiftReduce

structure StackEntry where
  state : Nat
  tree : Option ParseTree
  deriving DecidableEq, Repr

/-- The entry below all others. -/
def StackEntry.start : StackEntry := ⟨0, none⟩

/-- The entries above the start entry, topmost first. -/
structure Stack where
  above : List StackEntry := []
  deriving DecidableEq, Repr

namespace Stack

/-- The stack that holds the start entry alone. -/
def empty : Stack := {}

/-- How many entries lie above the start entry. -/
def depth (stack : Stack) : Nat := stack.above.length

/-- Every entry from the bottom up, the start entry included. -/
def entries (stack : Stack) : List StackEntry := .start :: stack.above.reverse

/-- The state the automaton is in. -/
def topState (stack : Stack) : Nat := (stack.above.headD .start).state

def push (stack : Stack) (state : Nat) (tree : Option ParseTree) : Stack :=
  ⟨⟨state, tree⟩ :: stack.above⟩

/-- Takes the topmost entry off; the start entry stays where it is. -/
def pop (stack : Stack) : Except Fault StackEntry × Stack :=
  match stack.above with
  | [] => (.error (.stackUnderflow 1 0), stack)
  | entry :: above => (.ok entry, ⟨above⟩)

/-- The trees of a run of entries listed from the bottom up, or the first state without one. -/
def subtrees : List StackEntry → Except Fault (List ParseTree)
  | [] => .ok []
  | ⟨state, none⟩ :: _ => .error (.missingSubtree state)
  | ⟨_, some tree⟩ :: entries => (subtrees entries).map (tree :: ·)

/-- Takes off the topmost `count` entries, if there are as many, and hands out their trees from
left to right. Of several entries without a tree the lowest is named. -/
def popMany (stack : Stack) (count : Nat) : Except Fault (List ParseTree) × Stack :=
  if stack.depth < count then
    (.error (.stackUnderflow count stack.depth), stack)
  else
    (subtrees (stack.above.take count).reverse, ⟨stack.above.drop count⟩)

/-- Moves the finished tree out of the only entry above the start; the entry itself stays. -/
def takeResult (stack : Stack) : Except Fault ParseTree × Stack :=
  match stack.above with
  | [⟨state, some tree⟩] => (.ok tree, ⟨[⟨state, none⟩]⟩)
  | [⟨state, none⟩] => (.error (.missingSubtree state), stack)
  | above => (.error (.malformedAccept above.length), stack)

/-! ### One lemma per operation -/

@[simp] theorem entries_empty : empty.entries = [.start] := rfl

@[simp] theorem depth_empty : empty.depth = 0 := rfl

@[simp] theorem topState_empty : empty.topState = 0 := rfl

@[simp] theorem depth_push (stack : Stack) (state : Nat) (tree : Option ParseTree) :
    (stack.push state tree).depth = stack.depth + 1 := rfl

@[simp] theorem topState_push (stack : Stack) (state : Nat) (tree : Option ParseTree) :
    (stack.push state tree).topState = state := rfl

@[simp] theorem entries_push (stack : Stack) (state : Nat) (tree : Option ParseTree) :
    (stack.push state tree).entries = stack.entries ++ [⟨state, tree⟩] := by
  simp [entries, push]

theorem length_entries (stack : Stack) : stack.entries.length = stack.depth + 1 := by
  simp [entries, depth]

theorem pop_push (stack : Stack) (state : Nat) (tree : Option ParseTree) :
    (stack.push state tree).pop = (.ok ⟨state, tree⟩, stack) := rfl

theorem popMany_of_lt {stack : Stack} {count : Nat} (lt : stack.depth < count) :
    stack.popMany count = (.error (.stackUnderflow count stack.depth), stack) :=
  if_pos lt

theorem popMany_of_le {stack : Stack} {count : Nat} (le : count ≤ stack.depth) :
    stack.popMany count = (subtrees (stack.above.take count).reverse, ⟨stack.above.drop count⟩) :=
  if_neg (Nat.not_lt_of_le le)

/-- Popping several entries succeeds if there are as many and all of them hold trees. -/
theorem popMany_eq_ok {stack below : Stack} {count : Nat} {children : List ParseTree} :
    stack.popMany count = (.ok children, below) ↔ count ≤ stack.depth ∧
      subtrees (stack.above.take count).reverse = .ok children ∧
      below = ⟨stack.above.drop count⟩ := by
  by_cases hlt : stack.depth < count
  · rw [popMany_of_lt hlt]
    exact iff_of_false nofun fun h => Nat.not_le_of_lt hlt h.1
  · have hle := Nat.le_of_not_lt hlt
    rw [popMany_of_le hle, Prod.mk.injEq, and_iff_right hle]
    exact and_congr_right fun _ => eq_comm

/-- Of entries listed from the bottom up either all hold a tree, or there is a lowest one that does
not, and it is named. -/
theorem subtrees_cases : ∀ (entries : List StackEntry),
    (∃ trees, subtrees entries = .ok trees ∧ entries.map StackEntry.tree = trees.map some) ∨
    ∃ lower entry upper, entries = lower ++ entry :: upper ∧ entry.tree = none ∧
      (∀ other ∈ lower, other.tree.isSome) ∧
      subtrees entries = .error (.missingSubtree entry.state)
  | [] => Or.inl ⟨[], rfl, rfl⟩
  | ⟨state, none⟩ :: entries =>
    Or.inr ⟨[], ⟨state, none⟩, entries, rfl, rfl, List.forall_mem_nil _, rfl⟩
  | ⟨state, some tree⟩ :: entries => by
    rcases subtrees_cases entries with
      ⟨trees, hok, htrees⟩ | ⟨lower, entry, upper, rfl, hnone, hlower, herror⟩
    · refine Or.inl ⟨tree :: trees, ?_, ?_⟩
      · rw [subtrees, hok]
        rfl
      · rw [List.map_cons, htrees, List.map_cons]
    · refine Or.inr ⟨⟨state, some tree⟩ :: lower, entry, upper, rfl, hnone,
        List.forall_mem_cons.mpr ⟨rfl, hlower⟩, ?_⟩
      rw [subtrees, herror]
      rfl

/-- Who asks for the result finds a single entry with a tree, a single one without, or another
number of entries. -/
theorem takeResult_cases (stack : Stack) :
    (∃ state tree, stack = ⟨[⟨state, some tree⟩]⟩ ∧
      stack.takeResult = (.ok tree, ⟨[⟨state, none⟩]⟩)) ∨
    (∃ state, stack = ⟨[⟨state, none⟩]⟩ ∧
      stack.takeResult = (.error (.missingSubtree state), stack)) ∨
    (stack.depth ≠ 1 ∧ stack.takeResult = (.error (.malformedAccept stack.depth), stack)) := by
  obtain ⟨_ | ⟨⟨state, _ | tree⟩, _ | ⟨entry, above⟩⟩⟩ := stack
  · exact Or.inr (Or.inr ⟨by simp [depth], rfl⟩)
  · exact Or.inr (Or.inl ⟨state, rfl, rfl⟩)
  · exact Or.inr (Or.inr ⟨by simp [depth], by simp [takeResult, depth]⟩)
  · exact Or.inl ⟨state, tree, rfl, rfl⟩
  · exact Or.inr (Or.inr ⟨by simp [depth], by simp [takeResult, depth]⟩)

end Stack

end ShiftReduce
