import ShiftReduce.Stack

/-!
Histories of a stack: operations one after another on the empty stack, each of them answered before
the next. What a history leaves on the stack can be told from the history alone, by counting: every
operation raises or lowers the number of entries, and a push still stands as long as that number has
not since been down to what it was in front of the push.
-/

namespace ShiftReduce.Stack

/-- What a stack can be asked to do. -/
inductive Operation where
  | push (state : Nat) (tree : Option ParseTree)
  | pop
  | popMany (count : Nat)
  | takeResult
  deriving DecidableEq, Repr

/-- What an operation that succeeds hands out. -/
inductive Handout where
  | nothing
  | entry (entry : StackEntry)
  | trees (trees : List ParseTree)
  | result (tree : ParseTree)
  deriving DecidableEq, Repr

/-- The answer to an operation and the stack after it. -/
def perform (stack : Stack) : Operation → Except Fault Handout × Stack
  | .push state tree => (.ok .nothing, stack.push state tree)
  | .pop => (stack.pop.1.map .entry, stack.pop.2)
  | .popMany count => ((stack.popMany count).1.map .trees, (stack.popMany count).2)
  | .takeResult => (stack.takeResult.1.map .result, stack.takeResult.2)

/-- The stack that operations on the empty one lead to, whatever they answer. -/
def reached (history : List Operation) : Stack :=
  history.foldl (fun stack operation => (stack.perform operation).2) empty

theorem reached_concat (history : List Operation) (operation : Operation) :
    reached (history ++ [operation]) = ((reached history).perform operation).2 := by
  simp [reached]

/-! ### Counting -/

/-- How many entries an operation leaves of so many. What asks for too many takes none. -/
def Operation.level (height : Nat) : Operation → Nat
  | .push _ _ => height + 1
  | .pop => height - 1
  | .popMany count => if height < count then height else height - count
  | .takeResult => height

/-- How many entries a history leaves. -/
def height (history : List Operation) : Nat := history.foldl Operation.level 0

@[simp] theorem height_nil : height [] = 0 := rfl

@[simp] theorem height_concat (history : List Operation) (operation : Operation) :
    height (history ++ [operation]) = operation.level (height history) := by
  simp [height]

/-- The entry pushed at a place of a history is still there: at no moment since then has the stack
been as low as in front of the push. -/
def Stands (history : List Operation) (place : Nat) : Prop :=
  ∀ moment ≤ history.length, place < moment →
    height (history.take place) < height (history.take moment)
  deriving Decidable

/-- The entry pushed at a place has kept its tree: since then no result was asked for while there
was one entry only. -/
def KeepsTree (history : List Operation) (place : Nat) : Prop :=
  ∀ moment ≤ history.length, place < moment → history[moment]? = some .takeResult →
    height (history.take moment) ≠ 1
  deriving Decidable

/-- What was pushed at a place, with what has become of its tree since. -/
def entryOf? (history : List Operation) (place : Nat) : Option StackEntry :=
  match history[place]? with
  | some (.push state tree) => some ⟨state, if KeepsTree history place then tree else none⟩
  | _ => none

/-- The places of the pushes whose entries are still there, in the order of the pushes. -/
def standing (history : List Operation) : List Nat :=
  (List.range history.length).filter fun place => Stands history place

/-- The entries pushed and not popped since, in the order of their pushes. -/
def held (history : List Operation) : List StackEntry :=
  (standing history).filterMap (entryOf? history)

end ShiftReduce.Stack
