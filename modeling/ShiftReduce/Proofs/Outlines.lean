import ShiftReduce.Proofs.Labels
import ShiftReduce.Proofs.Lossless
import ShiftReduce.Tree.Preorder

/-!
A printed outline determines its tree, up to the lines of the tokens. No label begins with a blank,
so a line tells how deep it is and what it shows; the lines below a node are those up to the next
one that is not deeper, so depths and labels give back the children of every node. The one
hypothesis is that no text holds a newline, and the lexer never makes a token with one that does.
-/

namespace ShiftReduce

namespace ParseTree

/-! ### Lines -/

theorem toList_label (tree : ParseTree) :
    ∃ text, tree.label.toList = tree.symbol.name.toList ++ Token.suffix text := by
  cases tree with
  | leaf token => exact ⟨token.text, token.toList_describe⟩
  | node head children => exact ⟨none, (List.append_nil _).symm⟩

theorem head?_label_ne (tree : ParseTree) : ∀ c ∈ tree.label.toList.head?, c ≠ ' ' := by
  rintro c mem rfl
  obtain ⟨text, hlabel⟩ := tree.toList_label
  obtain ⟨first, rest, hname⟩ := List.exists_cons_of_ne_nil tree.symbol.name_ne_nil
  have hblank := tree.symbol.blank_not_mem_name
  rw [hlabel, hname, List.cons_append, List.head?_cons, Option.mem_some_iff] at mem
  simp [hname, mem] at hblank

/-- A line tells its depth and its label. -/
theorem indent_label_injective {depth depth' : Nat} {tree tree' : ParseTree}
    (h : indent depth ++ tree.label = indent depth' ++ tree'.label) :
    depth = depth' ∧ tree.label = tree'.label := by
  have hstops : ∀ (depth : Nat) (tree : ParseTree),
      (indent depth ++ tree.label).toList.takeWhile (· == ' ') = List.replicate (2 * depth) ' ' ∧
      (indent depth ++ tree.label).toList.dropWhile (· == ' ') = tree.label.toList := by
    intro depth tree
    rw [String.toList_append, indent, String.toList_ofList]
    refine span_stops _ (fun c mem => ?_) fun c mem => ?_
    · rw [(List.mem_replicate.mp mem).2]
      rfl
    · rw [beq_eq_false_iff_ne]
      exact tree.head?_label_ne c mem
  obtain ⟨hindent, hlabel⟩ := hstops depth tree
  rw [h, (hstops depth' tree').1] at hindent
  rw [h, (hstops depth' tree').2, String.toList_inj] at hlabel
  have hlength := congrArg List.length hindent
  rw [List.length_replicate, List.length_replicate] at hlength
  exact ⟨by omega, hlabel.symm⟩

/-- The outline of a tree is the line of its root above the outlines of its children. -/
theorem outlineLines_cons (depth : Nat) (tree : ParseTree) : tree.outlineLines depth =
    (indent depth ++ tree.label) :: outlineLinesAll (depth + 1) tree.children := by
  cases tree <;> rfl

/-- Roots with the same label stand over the same children, up to lines, if these are the same. -/
theorem relabel_eq_of_label : ∀ {left right : ParseTree}, left.label = right.label →
    relabelAll Token.unplaced left.children = relabelAll Token.unplaced right.children →
    left.SameUpToLines right
  | .leaf _, .leaf _, label, _ => congrArg leaf (Token.describe_eq_iff.mp label)
  | .leaf token, .node head _, label, _ => absurd label (token.describe_ne_name head)
  | .node head _, .leaf token, label, _ => absurd label.symm (token.describe_ne_name head)
  | .node head _, .node head' _, label, below => by
    have hheads : Symbol.nonterminal head = .nonterminal head' := Symbol.name_injective label
    rw [SameUpToLines, relabel, relabel, Symbol.nonterminal.inj hheads]
    exact congrArg (node head') below

/-! ### Reading an outline back -/

/-- The line that follows, if there is one, is less deep. -/
def Closes (depth : Nat) (rest : List String) : Prop :=
  ∀ line ∈ rest.head?, ∃ (upper : Nat) (tree : ParseTree), upper < depth ∧
    line = indent upper ++ tree.label

theorem Closes.outlineLinesAll {depth : Nat} {rest : List String} (closes : Closes depth rest) :
    ∀ trees, Closes (depth + 1) (outlineLinesAll depth trees ++ rest)
  | [], line, mem => by
    obtain ⟨upper, tree, hupper, hline⟩ := closes line mem
    exact ⟨upper, tree, Nat.lt_succ_of_lt hupper, hline⟩
  | tree :: trees, line, mem => by
    rw [ParseTree.outlineLinesAll, outlineLines_cons] at mem
    exact ⟨depth, tree, Nat.lt_succ_self depth, (Option.some.inj mem).symm⟩

/-- Where the outlines on a level are over, none of them begins. -/
theorem Closes.ne_cons {depth : Nat} {rest behind : List String} (closes : Closes depth rest)
    (tree : ParseTree) : rest ≠ tree.outlineLines depth ++ behind := by
  rintro rfl
  rw [outlineLines_cons] at closes
  obtain ⟨upper, other, hupper, hline⟩ := closes _ rfl
  obtain ⟨rfl, -⟩ := indent_label_injective hline
  exact Nat.lt_irrefl _ hupper

mutual

/-- The outline at the front of some lines is that of one tree only, up to lines. -/
theorem outlineLines_injective (depth : Nat) : (left right : ParseTree) →
    {rest rest' : List String} → Closes (depth + 1) rest → Closes (depth + 1) rest' →
    left.outlineLines depth ++ rest = right.outlineLines depth ++ rest' →
      left.SameUpToLines right ∧ rest = rest'
  | left, right, rest, rest', closes, closes', h => by
    rw [outlineLines_cons, outlineLines_cons, List.cons_append, List.cons_append] at h
    obtain ⟨hline, hbelow⟩ := List.cons.inj h
    obtain ⟨-, hlabel⟩ := indent_label_injective hline
    cases left with
    | leaf token =>
      cases right with
      | leaf other => exact ⟨relabel_eq_of_label hlabel rfl, hbelow⟩
      | node head children => exact absurd hlabel (token.describe_ne_name head)
    | node head children =>
      obtain ⟨hchildren, hrest⟩ :=
        outlineLinesAll_injective (depth + 1) children right.children closes closes' hbelow
      exact ⟨relabel_eq_of_label hlabel hchildren, hrest⟩

theorem outlineLinesAll_injective (depth : Nat) : (lefts rights : List ParseTree) →
    {rest rest' : List String} → Closes depth rest → Closes depth rest' →
    outlineLinesAll depth lefts ++ rest = outlineLinesAll depth rights ++ rest' →
      relabelAll Token.unplaced lefts = relabelAll Token.unplaced rights ∧ rest = rest'
  | [], [], _, _, _, _, h => ⟨rfl, h⟩
  | [], right :: rights, _, _, closes, _, h => by
    rw [outlineLinesAll, outlineLinesAll, List.append_assoc] at h
    exact absurd h (closes.ne_cons right)
  | left :: lefts, [], _, _, _, closes', h => by
    rw [outlineLinesAll, outlineLinesAll, List.append_assoc] at h
    exact absurd h.symm (closes'.ne_cons left)
  | left :: lefts, right :: rights, _, _, closes, closes', h => by
    rw [outlineLinesAll, outlineLinesAll, List.append_assoc, List.append_assoc] at h
    obtain ⟨hfirst, hlater⟩ := outlineLines_injective depth left right
      (closes.outlineLinesAll lefts) (closes'.outlineLinesAll rights) h
    obtain ⟨hothers, hrest⟩ := outlineLinesAll_injective depth lefts rights closes closes' hlater
    refine ⟨?_, hrest⟩
    rw [relabelAll, relabelAll, hfirst, hothers]

end

mutual

/-- An outline shows no lines. -/
theorem outlineLines_unplaced (depth : Nat) : (tree : ParseTree) →
    (tree.relabel Token.unplaced).outlineLines depth = tree.outlineLines depth
  | .leaf _ => rfl
  | .node head children => by
    rw [relabel, outlineLines, outlineLines, outlineLinesAll_unplaced (depth + 1) children]

theorem outlineLinesAll_unplaced (depth : Nat) : (trees : List ParseTree) →
    outlineLinesAll depth (relabelAll Token.unplaced trees) = outlineLinesAll depth trees
  | [] => rfl
  | tree :: trees => by
    rw [relabelAll, outlineLinesAll, outlineLinesAll, outlineLines_unplaced depth tree,
      outlineLinesAll_unplaced depth trees]

end

/-- The lines of an outline determine the tree. -/
theorem outlineLines_eq_iff {left right : ParseTree} :
    left.outlineLines 0 = right.outlineLines 0 ↔ left.SameUpToLines right := by
  constructor
  · intro h
    have hclosed : Closes 1 [] := nofun
    have hnil : left.outlineLines 0 ++ [] = right.outlineLines 0 ++ [] := by rw [h]
    exact (outlineLines_injective 0 left right hclosed hclosed hnil).1
  · intro same
    rw [← outlineLines_unplaced 0 left, same, outlineLines_unplaced 0 right]

/-! ### The text of an outline -/

theorem isLine_indent (depth : Nat) : IsLine (indent depth).toList := by
  rw [indent, String.toList_ofList]
  exact fun mem => by simp at mem

mutual

/-- Where every text is on one line, so is everything that the outline shows. -/
theorem isLine_outlineLines (depth : Nat) : (tree : ParseTree) →
    (∀ token ∈ tree.leaves, token.OnOneLine) → ∀ line ∈ tree.outlineLines depth, IsLine line.toList
  | .leaf token, onOneLine, line, mem => by
    obtain rfl := List.mem_singleton.mp mem
    rw [String.toList_append, isLine_append]
    exact ⟨isLine_indent depth, (onOneLine token List.mem_cons_self).isLine_describe⟩
  | .node head children, onOneLine, line, mem => by
    rcases List.mem_cons.mp mem with rfl | mem
    · rw [String.toList_append, isLine_append]
      exact ⟨isLine_indent depth, Symbol.isLine_name (.nonterminal head)⟩
    · exact isLine_outlineLinesAll (depth + 1) children onOneLine line mem

theorem isLine_outlineLinesAll (depth : Nat) : (trees : List ParseTree) →
    (∀ token ∈ leavesAll trees, token.OnOneLine) →
      ∀ line ∈ outlineLinesAll depth trees, IsLine line.toList
  | [], _, line, mem => by cases mem
  | tree :: trees, onOneLine, line, mem => by
    rw [leavesAll, List.forall_mem_append] at onOneLine
    rw [outlineLinesAll, List.mem_append] at mem
    rcases mem with mem | mem
    · exact isLine_outlineLines depth tree onOneLine.1 line mem
    · exact isLine_outlineLinesAll depth trees onOneLine.2 line mem

end

end ParseTree

/-- A text that the lexer gives a token is its lexeme, which lies on one line. -/
theorem Token.Intact.onOneLine {token : Token} (intact : token.Intact) : token.OnOneLine := by
  intro text mem
  have hlexeme : token.lexeme = text := by
    rw [Token.lexeme, Option.mem_def.mp mem]
    rfl
  rw [← hlexeme]
  exact intact.isLine

namespace ParseTree

/-- An outline has one line for each position in a tree, in their order, and tells the tree up to
the lines of its tokens. -/
theorem outline_eq_iff {left right : ParseTree}
    (onLines : ∀ token ∈ left.leaves, token.OnOneLine)
    (onLines' : ∀ token ∈ right.leaves, token.OnOneLine) :
    (left.outline = right.outline ↔ left.SameUpToLines right) ∧
    (∃ places : List (List Nat × ParseTree),
      left.outline =
        Text.unlines (places.map fun place => indent place.1.length ++ place.2.label) ∧
      (∀ place ∈ places, IsLine (indent place.1.length ++ place.2.label).toList) ∧
      (∀ path sub, (path, sub) ∈ places ↔ left.descend? path = some sub) ∧
      places.Pairwise (fun before behind => before.1 < behind.1) ∧
      places.length = left.size) ∧
    left.outline.toList.count '\n' = left.size ∧
    ∀ text, ∀ token ∈ tokenize text, token.OnOneLine := by
  have hlines := isLine_outlineLines 0 left onLines
  have hlines' := isLine_outlineLines 0 right onLines'
  have hshown : left.outlineLines 0 =
      left.preorder.map fun place => indent place.1.length ++ place.2.label := by
    simp only [outlineLines_eq, Nat.zero_add]
  refine ⟨?_, ⟨left.preorder, ?_, ?_, ?_, left.preorder_ascending, left.length_preorder⟩, ?_, ?_⟩
  · rw [← outlineLines_eq_iff]
    exact ⟨Text.unlines_injective hlines hlines', congrArg Text.unlines⟩
  · rw [outline, hshown]
  · rw [hshown] at hlines
    exact fun place mem => hlines _ (List.mem_map.mpr ⟨place, mem, rfl⟩)
  · exact left.mem_preorder
  · rw [outline, Text.count_unlines hlines, length_outlineLines]
  · intro text token mem
    exact (intact_of_mem_tokenize mem).onOneLine

/-- Backquotes and blanks in a text do no harm, and an alternative without children is not taken for
the word that begins one. -/
theorem outline_eq_iff_backquotes :
    let operand (line : Nat) : ParseTree := .leaf ⟨.literal, some "\"a` `b\"", line⟩
    let left : ParseTree := .node .product [operand 1, .node .alternative []]
    let right : ParseTree := .node .product [operand 8, .node .alternative []]
    let other : ParseTree := .node .product [operand 1, .leaf (.bare .elseWord 1)]
    (∀ token ∈ left.leaves, token.OnOneLine) ∧ (∀ token ∈ right.leaves, token.OnOneLine) ∧
    (∀ token ∈ other.leaves, token.OnOneLine) ∧
    left.outline = right.outline ∧ left.outline ≠ other.outline ∧
    left.outline.toList.count '\n' = 3 := by
  intro operand left right other
  have hleft : ∀ token ∈ left.leaves, token.OnOneLine := by
    simp [left, operand, leaves, leavesAll, Token.OnOneLine, IsLine]
  have hright : ∀ token ∈ right.leaves, token.OnOneLine := by
    simp [right, operand, leaves, leavesAll, Token.OnOneLine, IsLine]
  have hother : ∀ token ∈ other.leaves, token.OnOneLine := by
    simp [other, operand, leaves, leavesAll, Token.OnOneLine, Token.bare, IsLine]
  have hdiffer : left.relabel Token.unplaced ≠ other.relabel Token.unplaced := by decide
  obtain ⟨hsame, -, hcount, -⟩ := outline_eq_iff hleft hright
  obtain ⟨hother_iff, -⟩ := outline_eq_iff hleft hother
  exact ⟨hleft, hright, hother, hsame.mpr rfl, fun h => hdiffer (hother_iff.mp h), hcount⟩

end ParseTree

end ShiftReduce
