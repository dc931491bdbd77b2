import ShiftReduce.Tree.Derivation

/-!
Trees with other tokens at their leaves. Two trees that differ only in where their tokens stand
become equal once every line is blotted out, and two that differ in texts as well once only the
kinds are kept. A derivation stays one under other tokens of the same kinds, so any tokens of the
kinds of a program are the leaves of a derivation.
-/

namespace ShiftReduce

/-- A token without its place. -/
def Token.unplaced (token : Token) : Token := { token with line := 0 }

/-- A token of which only the kind is known. -/
def Token.kindOnly (token : Token) : Token := .bare token.kind 0

namespace ParseTree

mutual

/-- The tree with every leaf's token changed by `f`. -/
def relabel (f : Token → Token) : ParseTree → ParseTree
  | .leaf token => .leaf (f token)
  | .node head children => .node head (relabelAll f children)

/-- Neighbouring trees with every leaf's token changed by `f`. -/
def relabelAll (f : Token → Token) : List ParseTree → List ParseTree
  | [] => []
  | tree :: trees => relabel f tree :: relabelAll f trees

end

theorem relabelAll_eq_map (f : Token → Token) (trees : List ParseTree) :
    relabelAll f trees = trees.map (relabel f) := by
  induction trees with
  | nil => rfl
  | cons tree trees ih => simp [relabelAll, ih]

/-- Whether two trees differ at most in the lines of their tokens. -/
def SameUpToLines (left right : ParseTree) : Prop :=
  left.relabel Token.unplaced = right.relabel Token.unplaced

/-- Whether two trees differ at most in the texts and lines of their tokens. -/
def SameKinds (left right : ParseTree) : Prop :=
  left.relabel Token.kindOnly = right.relabel Token.kindOnly

end ParseTree

/-! ### Trees over other tokens -/

namespace ParseTree

variable {f : Token → Token}

mutual

/-- Other tokens that look the same to `f` can stand in place of the leaves. -/
theorem exists_relabel : (tree : ParseTree) → {tokens : List Token} →
    tokens.map f = tree.leaves.map f →
      ∃ other : ParseTree, other.leaves = tokens ∧ other.relabel f = tree.relabel f
  | .leaf token, tokens, same => by
    obtain ⟨first, rest, rfl, hfirst, hrest⟩ := List.map_eq_cons_iff.mp same
    obtain rfl := List.map_eq_nil_iff.mp hrest
    exact ⟨.leaf first, rfl, congrArg ParseTree.leaf hfirst⟩
  | .node head children, tokens, same => by
    obtain ⟨others, hleaves, hsame⟩ := exists_relabelAll children same
    exact ⟨.node head others, hleaves, congrArg (ParseTree.node head) hsame⟩

theorem exists_relabelAll : (trees : List ParseTree) → {tokens : List Token} →
    tokens.map f = (leavesAll trees).map f →
      ∃ others : List ParseTree, leavesAll others = tokens ∧
        relabelAll f others = relabelAll f trees
  | [], tokens, same => ⟨[], (List.map_eq_nil_iff.mp same).symm, rfl⟩
  | tree :: trees, tokens, same => by
    rw [leavesAll, List.map_append] at same
    obtain ⟨front, back, rfl, hfront, hback⟩ := List.map_eq_append_iff.mp same
    obtain ⟨other, hleaves, hother⟩ := exists_relabel tree hfront
    obtain ⟨others, hleavesAll, hothers⟩ := exists_relabelAll trees hback
    refine ⟨other :: others, ?_, ?_⟩
    · rw [leavesAll, hleaves, hleavesAll]
    · rw [relabelAll, relabelAll, hother, hothers]

end

theorem symbol_relabel (keeps : ∀ token, (f token).kind = token.kind) (tree : ParseTree) :
    (tree.relabel f).symbol = tree.symbol := by
  cases tree with
  | leaf token => exact congrArg Symbol.terminal (keeps token)
  | node head children => rfl

end ParseTree

namespace Derivation

variable {rules : List Rule} {f : Token → Token}

mutual

theorem check_relabel (keeps : ∀ token, (f token).kind = token.kind) :
    (tree : ParseTree) → check rules (tree.relabel f) = check rules tree
  | .leaf _ => rfl
  | .node head children => by
    have hsymbols : (ParseTree.relabelAll f children).map ParseTree.symbol =
        children.map ParseTree.symbol := by
      rw [ParseTree.relabelAll_eq_map, List.map_map]
      exact List.map_congr_left fun child _ => ParseTree.symbol_relabel keeps child
    rw [ParseTree.relabel, check, check, hsymbols, checkAll_relabel keeps children]

theorem checkAll_relabel (keeps : ∀ token, (f token).kind = token.kind) :
    (trees : List ParseTree) → checkAll rules (ParseTree.relabelAll f trees) = checkAll rules trees
  | [] => rfl
  | tree :: trees => by
    rw [ParseTree.relabelAll, checkAll, checkAll, check_relabel keeps tree,
      checkAll_relabel keeps trees]

end

/-- Being a derivation is a matter of the kinds at the leaves. -/
theorem of_relabel_eq (keeps : ∀ token, (f token).kind = token.kind) {tree other : ParseTree}
    (same : other.relabel f = tree.relabel f) (derivation : Derivation rules tree) :
    Derivation rules other := by
  refine of_check other ?_
  rw [← check_relabel keeps, same, check_relabel keeps]
  exact check_eq_true derivation

end Derivation

namespace Language

/-- Tokens of the kinds of a program are the leaves of one. -/
theorem IsProgram.exists_tree {tokens : List Token} (program : IsProgram (tokens.map Token.kind)) :
    ∃ tree, IsProgramTree tree ∧ tree.leaves = tokens := by
  obtain ⟨tree, hderivation, hsymbol, hkinds⟩ := program
  have hsame : tokens.map Token.kindOnly = tree.leaves.map Token.kindOnly := by
    have hblank := congrArg (List.map fun kind => Token.bare kind 0) hkinds
    rw [ParseTree.kinds, List.map_map, List.map_map] at hblank
    exact hblank.symm
  have hkeeps : ∀ token : Token, token.kindOnly.kind = token.kind := fun _ => rfl
  obtain ⟨other, hleaves, hrelabel⟩ := ParseTree.exists_relabel tree hsame
  refine ⟨other, ⟨hderivation.of_relabel_eq hkeeps hrelabel, ?_⟩, hleaves⟩
  rw [← hsymbol, ← ParseTree.symbol_relabel hkeeps other, hrelabel,
    ParseTree.symbol_relabel hkeeps tree]

end Language

end ShiftReduce
