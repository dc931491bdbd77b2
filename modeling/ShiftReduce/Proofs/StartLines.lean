import ShiftReduce.Proofs.Lossless
import ShiftReduce.Proofs.Soundness

/-!
Where the nodes of a parsed text start. The leaves of a tree that a finite source is parsed into
are the tokens of that source, so the leaves below any of its nodes are some of them in a row. The
lexer's lines never decrease, so the line of the first leaf is the smallest. A node without leaves
applies a rule whose right-hand side names nothing but such nodes, and the only such rule is the
empty alternative.
-/

namespace ShiftReduce

namespace ParseTree

/-! ### Leaves in a row -/

/-- The leaves of a child stand in a row among those of the tree. -/
theorem leaves_infix_of_child {tree child : ParseTree} (mem : child ∈ tree.children) :
    child.leaves <:+: tree.leaves := by
  cases tree with
  | leaf token => cases mem
  | node head children =>
    obtain ⟨front, back, hsplit⟩ := List.append_of_mem mem
    obtain rfl : children = front ++ child :: back := hsplit
    simp [leaves, leavesAll, List.infix_append']

/-- So do the leaves of every subtree. -/
theorem leaves_infix {tree sub : ParseTree} {path : List Nat}
    (found : tree.descend? path = some sub) : sub.leaves <:+: tree.leaves := by
  induction path generalizing tree with
  | nil =>
    obtain rfl := Option.some.inj found
    exact List.infix_rfl
  | cons position path ih =>
    obtain ⟨child, hchild, hrest⟩ := Option.bind_eq_some_iff.mp found
    exact (ih hrest).trans (leaves_infix_of_child (List.mem_of_getElem? hchild))

/-- Where the lines of the leaves never decrease, a tree starts on the smallest of them. -/
theorem line?_eq_min? {tree : ParseTree}
    (ascending : (tree.leaves.map Token.line).Pairwise (· ≤ ·)) :
    tree.line? = (tree.leaves.map Token.line).min? := by
  rw [line?_eq_head?, ← List.head?_map, List.min?_eq_head?]
  exact ascending.imp Nat.min_eq_left

theorem line?_eq_none {tree : ParseTree} : tree.line? = none ↔ tree.leaves = [] := by
  simp [line?_eq_head?]

end ParseTree

/-! ### Nodes without leaves -/

namespace Language

/-- A right-hand side that names nothing but alternatives is the empty one, and builds one. -/
theorem empty_alternative : ∀ rule ∈ rules,
    (∀ symbol ∈ rule.body, symbol = .nonterminal .alternative) →
      rule.body = [] ∧ rule.head = .alternative := by decide

/-- The only derivation without leaves is an alternative without children. -/
theorem eq_alternative_of_leaves_eq_nil {tree : ParseTree} (derivation : Derivation rules tree)
    (empty : tree.leaves = []) : tree = .node .alternative [] := by
  induction derivation with
  | leaf token => cases empty
  | @node rule children mem spells _ ih =>
    have hchildren : ∀ child ∈ children, child = .node .alternative [] := by
      intro child hchild
      have hinfix : child.leaves <:+: (ParseTree.node rule.head children).leaves :=
        ParseTree.leaves_infix_of_child hchild
      rw [empty, List.infix_nil] at hinfix
      exact ih child hchild hinfix
    have hsymbols : ∀ symbol ∈ rule.body, symbol = .nonterminal .alternative := by
      rw [spells]
      intro symbol hsymbol
      obtain ⟨child, hchild, rfl⟩ := List.mem_map.mp hsymbol
      rw [hchildren child hchild, ParseTree.symbol]
    obtain ⟨hbody, hhead⟩ := empty_alternative rule mem hsymbols
    rw [hbody] at spells
    rw [hhead, List.map_eq_nil_iff.mp spells.symm]

/-! ### Where nodes start -/

/-- Every node of the tree of a parsed text starts on the smallest line among its leaves, and on
none just when it is an alternative that is not written. -/
theorem line?_of_parseText {text : String} {tree : ParseTree}
    (accepted : parseText text = .accepted tree) {path : List Nat} {sub : ParseTree}
    (found : tree.descend? path = some sub) :
    sub.line? = (sub.leaves.map Token.line).min? ∧
    sub.line? = sub.leaves.head?.map Token.line ∧
    (sub.line? = none ↔ sub = .node .alternative []) := by
  obtain ⟨hprogram, hleaves⟩ := program_of_parse accepted
  refine ⟨ParseTree.line?_eq_min? ?_, ParseTree.line?_eq_head? sub, ?_⟩
  · have hascending := tokenize_ascending text
    rw [tokenize, ← hleaves] at hascending
    exact hascending.sublist ((ParseTree.leaves_infix found).sublist.map Token.line)
  · rw [ParseTree.line?_eq_none]
    constructor
    · exact eq_alternative_of_leaves_eq_nil (hprogram.1.descend found)
    · rintro rfl
      rfl

/-- A conditional over three lines with nothing for the other case. -/
def lonelyConditional : ParseTree :=
  .node .conditional [.leaf (.bare .ifWord 2), .leaf (.bare .leftParen 2),
    .node .disjunction [.node .conjunction [.node .comparison [.node .sum [.node .product [
      .node .factor [.leaf ⟨.ident, some "a", 3⟩]]]]]],
    .leaf (.bare .rightParen 3), .leaf (.bare .colon 3), .node .block [.leaf (.bare .done 4)],
    .node .alternative []]

/-- A program of that one statement. -/
def lonelyProgram : ParseTree :=
  .node .program [.leaf (.bare .prog 1), .leaf ⟨.ident, some "p", 1⟩, .leaf (.bare .colon 1),
    .node .block [.node .statement [lonelyConditional], .node .block [.leaf (.bare .done 4)]],
    .leaf (.bare .smile 5)]

/-- The conditional starts on the second line, and its last child on none. -/
theorem line?_of_parseText_lonely :
    parseText "prog p:\nif (\n a):\ndone done\n:)" = .accepted lonelyProgram ∧
    lonelyProgram.descend? [3, 0, 0] = some lonelyConditional ∧
    (lonelyConditional.leaves.map Token.line).min? = some 2 ∧
    lonelyProgram.descend? [3, 0, 0, 6] = some (.node .alternative []) ∧
    (ParseTree.node .alternative []).line? = none := by
  have haccepted :
      parseText "prog p:\nif (\n a):\ndone done\n:)" = .accepted lonelyProgram := by
    decide +kernel
  have hfound : lonelyProgram.descend? [3, 0, 0] = some lonelyConditional := rfl
  have hlast : lonelyProgram.descend? [3, 0, 0, 6] = some (.node .alternative []) := rfl
  obtain ⟨hsmallest, -, -⟩ := line?_of_parseText haccepted hfound
  obtain ⟨-, -, hnone⟩ := line?_of_parseText haccepted hlast
  exact ⟨haccepted, hfound, hsmallest.symm, hlast, hnone.mpr rfl⟩

end Language

end ShiftReduce
