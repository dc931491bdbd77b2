import ShiftReduce.Tree.Basic
import ShiftReduce.Text.Lines

/-!
The printed outline of a tree: one line per leaf and node in pre-order, each indented by two
spaces for every step down from the root.
-/

namespace ShiftReduce.ParseTree

/-- Two spaces for every level. -/
def indent (depth : Nat) : String :=
  String.ofList (List.replicate (2 * depth) ' ')

mutual

/-- The lines of an outline whose root is indented `depth` levels. -/
def outlineLines (depth : Nat) : ParseTree → List String
  | .leaf token => [indent depth ++ token.describe]
  | .node head children => (indent depth ++ head.name) :: outlineLinesAll (depth + 1) children

/-- The lines of neighbouring outlines on one level. -/
def outlineLinesAll (depth : Nat) : List ParseTree → List String
  | [] => []
  | tree :: trees => outlineLines depth tree ++ outlineLinesAll depth trees

end

/-- The outline as text, every line ended by a newline. -/
def outline (tree : ParseTree) : String :=
  Text.unlines (tree.outlineLines 0)

mutual

theorem length_outlineLines (depth : Nat) :
    (tree : ParseTree) → (tree.outlineLines depth).length = tree.size
  | .leaf _ => rfl
  | .node _ children => by simp [outlineLines, size, length_outlineLinesAll (depth + 1) children]

/-- An outline has one line for every leaf and node. -/
theorem length_outlineLinesAll (depth : Nat) :
    (trees : List ParseTree) → (outlineLinesAll depth trees).length = sizeAll trees
  | [] => rfl
  | tree :: trees => by
    simp [outlineLinesAll, sizeAll, length_outlineLines depth tree,
      length_outlineLinesAll depth trees]

end

end ShiftReduce.ParseTree
