import ShiftReduce.Tree.Outline

/-!
The leaves and nodes of a tree in pre-order, each with its position: the path of child positions
that leads there from the root. A position comes behind those it continues and in front of those
that part from it to the right, so pre-order is the lexicographic order of positions, and it lists
every position once. An outline has its lines in this order.
-/

namespace ShiftReduce.ParseTree

/-- What the line of a tree's root shows behind its indentation. -/
def label : ParseTree → String
  | .leaf token => token.describe
  | .node head _ => head.name

mutual

/-- Every subtree with its position, the root first and then the children from left to right. -/
def preorder : ParseTree → List (List Nat × ParseTree)
  | .leaf token => [([], .leaf token)]
  | .node head children => ([], .node head children) :: preorderAll 0 children

/-- The subtrees of neighbouring children, the first of which is at the given position. -/
def preorderAll (first : Nat) : List ParseTree → List (List Nat × ParseTree)
  | [] => []
  | tree :: trees =>
    tree.preorder.map (fun place => (first :: place.1, place.2)) ++ preorderAll (first + 1) trees

end

/-! ### Positions -/

mutual

/-- What pre-order lists is exactly what is found by following a path. -/
theorem mem_preorder : (tree : ParseTree) → (path : List Nat) → (sub : ParseTree) →
    ((path, sub) ∈ tree.preorder ↔ tree.descend? path = some sub)
  | .leaf token, path, sub => by
    cases path <;> simp [preorder, descend?, children, eq_comm]
  | .node head below, [], sub => by
    simp [preorder, descend?, mem_preorderAll, eq_comm]
  | .node head below, position :: path, sub => by
    simp only [preorder, descend?, children, List.mem_cons, mem_preorderAll, Nat.zero_add]
    constructor
    · rintro (h | ⟨index, rest, hpath, found⟩)
      · cases h
      · obtain ⟨rfl, rfl⟩ := List.cons.inj hpath
        exact found
    · exact fun found => Or.inr ⟨position, path, rfl, found⟩

theorem mem_preorderAll : (trees : List ParseTree) → (first : Nat) → (path : List Nat) →
    (sub : ParseTree) → ((path, sub) ∈ preorderAll first trees ↔
      ∃ index rest, path = (first + index) :: rest ∧
        (trees[index]?.bind fun child => child.descend? rest) = some sub)
  | [], first, path, sub => by simp [preorderAll]
  | tree :: trees, first, path, sub => by
    rw [preorderAll, List.mem_append, mem_preorderAll trees (first + 1) path sub]
    constructor
    · rintro (mem | ⟨index, rest, rfl, found⟩)
      · obtain ⟨⟨rest, other⟩, hmem, heq⟩ := List.mem_map.mp mem
        obtain ⟨rfl, rfl⟩ := Prod.mk.inj heq
        exact ⟨0, rest, rfl, (mem_preorder tree rest other).mp hmem⟩
      · exact ⟨index + 1, rest, by rw [Nat.add_right_comm, Nat.add_assoc], found⟩
    · rintro ⟨_ | index, rest, rfl, found⟩
      · exact Or.inl (List.mem_map.mpr ⟨(rest, sub), (mem_preorder tree rest sub).mpr found, rfl⟩)
      · exact Or.inr ⟨index, rest, by rw [Nat.add_right_comm, Nat.add_assoc], found⟩

end

mutual

/-- Positions ascend in pre-order. -/
theorem preorder_ascending :
    (tree : ParseTree) → tree.preorder.Pairwise fun before behind => before.1 < behind.1
  | .leaf _ => List.pairwise_singleton _ _
  | .node head children => by
    refine List.pairwise_cons.mpr ⟨?_, preorderAll_ascending 0 children⟩
    rintro ⟨path, sub⟩ mem
    obtain ⟨index, rest, rfl, -⟩ := (mem_preorderAll children 0 path sub).mp mem
    exact List.nil_lt_cons _ _

theorem preorderAll_ascending (first : Nat) : (trees : List ParseTree) →
    (preorderAll first trees).Pairwise fun before behind => before.1 < behind.1
  | [] => .nil
  | tree :: trees => by
    rw [preorderAll, List.pairwise_append, List.pairwise_map]
    refine ⟨?_, preorderAll_ascending (first + 1) trees, ?_⟩
    · exact (preorder_ascending tree).imp fun lt => List.cons_lt_cons_iff.mpr (Or.inr ⟨rfl, lt⟩)
    · -- what comes behind is below a later child
      rintro ⟨path, sub⟩ mem ⟨path', sub'⟩ mem'
      obtain ⟨⟨rest, other⟩, -, heq⟩ := List.mem_map.mp mem
      obtain ⟨index, rest', rfl, -⟩ := (mem_preorderAll trees (first + 1) path' sub').mp mem'
      obtain ⟨rfl, rfl⟩ := Prod.mk.inj heq
      exact List.cons_lt_cons_iff.mpr (Or.inl (by omega))

end

mutual

theorem length_preorder : (tree : ParseTree) → tree.preorder.length = tree.size
  | .leaf _ => rfl
  | .node head children => by simp [preorder, size, length_preorderAll 0 children]

theorem length_preorderAll (first : Nat) :
    (trees : List ParseTree) → (preorderAll first trees).length = sizeAll trees
  | [] => rfl
  | tree :: trees => by
    simp [preorderAll, sizeAll, length_preorder tree, length_preorderAll (first + 1) trees]

end

/-! ### The lines of an outline -/

mutual

/-- An outline shows what pre-order lists, each root as deep as its position is long. -/
theorem outlineLines_eq (depth : Nat) : (tree : ParseTree) → tree.outlineLines depth =
    tree.preorder.map fun place => indent (depth + place.1.length) ++ place.2.label
  | .leaf _ => rfl
  | .node head children => by
    rw [outlineLines, preorder, List.map_cons, outlineLinesAll_eq depth 0 children]
    rfl

theorem outlineLinesAll_eq (depth first : Nat) :
    (trees : List ParseTree) → outlineLinesAll (depth + 1) trees =
      (preorderAll first trees).map fun place => indent (depth + place.1.length) ++ place.2.label
  | [] => rfl
  | tree :: trees => by
    rw [outlineLinesAll, preorderAll, outlineLines_eq (depth + 1) tree,
      outlineLinesAll_eq depth (first + 1) trees, List.map_append, List.map_map]
    simp [Function.comp_def, Nat.add_assoc, Nat.add_comm 1]

end

end ShiftReduce.ParseTree
