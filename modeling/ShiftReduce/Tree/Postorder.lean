import ShiftReduce.Tree.Basic

/-!
The order in which a parse builds its tree: children before their parent, from left to right. A
mark says what was built, a leaf from its token or a node over so many children, so the marks of a
tree in this order are a script that builds it again.
-/

namespace ShiftReduce

/-- What one move of a parse builds. -/
inductive Mark where
  | leaf (token : Token)
  | node (head : Nonterminal) (arity : Nat)
  deriving DecidableEq, Repr

namespace ParseTree

mutual

/-- The marks of a tree, each parent behind its children. -/
def postorder : ParseTree → List Mark
  | .leaf token => [.leaf token]
  | .node head children => postorderAll children ++ [.node head children.length]

/-- The marks of neighbouring trees. -/
def postorderAll : List ParseTree → List Mark
  | [] => []
  | tree :: trees => postorder tree ++ postorderAll trees

end

theorem postorderAll_append (front back : List ParseTree) :
    postorderAll (front ++ back) = postorderAll front ++ postorderAll back := by
  induction front with
  | nil => rfl
  | cons tree trees ih => simp [postorderAll, ih]

mutual

/-- A tree has one mark for every leaf and node. -/
theorem length_postorder : (tree : ParseTree) → tree.postorder.length = tree.size
  | .leaf _ => rfl
  | .node _ children => by simp [postorder, size, length_postorderAll children]

theorem length_postorderAll :
    (trees : List ParseTree) → (postorderAll trees).length = sizeAll trees
  | [] => rfl
  | tree :: trees => by
    simp [postorderAll, sizeAll, length_postorder tree, length_postorderAll trees]

end

end ParseTree

end ShiftReduce
