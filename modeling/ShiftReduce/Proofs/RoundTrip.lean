import ShiftReduce.Proofs.Acceptance
import ShiftReduce.Proofs.Lossless
import ShiftReduce.Proofs.Operands

/-!
From a tree to its text and back. When the lexemes of a program's tree are written out with layout
between them, the lexer reads every token again, a dash included, since the tree has it where its
kind fits; and the parser builds the same tree from the same tokens. All that the text tells and
the tree did not is the line of each token.
-/

namespace ShiftReduce

/-! ### Reading what was written -/

theorem Layout.head_mem {gap : List Char} (layout : Layout gap) :
    ∀ c ∈ gap.head?, c ∈ layoutChars := by
  intro c mem
  cases layout with
  | nil => cases mem
  | blank blank rest =>
    obtain rfl := Option.some.inj mem
    exact mem_layoutChars.mpr (Or.inl blank)
  | newline rest =>
    obtain rfl := Option.some.inj mem
    decide
  | comment isLine rest =>
    obtain rfl := Option.some.inj mem
    decide

theorem FinalLayout.head_mem {gap : List Char} (layout : FinalLayout gap) :
    ∀ c ∈ gap.head?, c ∈ layoutChars := by
  cases layout with
  | closed layout => exact layout.head_mem
  | @comment gap body layout isLine =>
    intro c mem
    rw [List.head?_append] at mem
    rcases Option.or_eq_some_iff.mp mem with hgap | ⟨-, hhash⟩
    · exact layout.head_mem c hgap
    · obtain rfl := Option.some.inj hhash
      decide

namespace Spaced

/-- Words with layout in front of each, and layout behind them, begin with layout or not at all. -/
theorem head_mem {words : List Spaced} {last : List Char}
    (gaps : ∀ word ∈ words, Layout word.gap) (apart : ∀ word ∈ words, word.gap ≠ [])
    (final : FinalLayout last) : ∀ c ∈ (text words ++ last).head?, c ∈ layoutChars := by
  cases words with
  | nil => exact final.head_mem
  | cons word words =>
    intro c mem
    have hne := apart word List.mem_cons_self
    rw [text_cons, chars, List.append_assoc, List.append_assoc, List.head?_append] at mem
    rcases Option.or_eq_some_iff.mp mem with hgap | ⟨hnone, -⟩
    · exact (gaps word List.mem_cons_self).head_mem c hgap
    · exact absurd (List.head?_eq_none_iff.mp hnone) hne

theorem unplaced_placed : ∀ (words : List Spaced) (before : List Char),
    (placed before words).map Token.unplaced = (words.map Spaced.token).map Token.unplaced
  | [], _ => rfl
  | word :: words, before => by
    rw [placed, List.map_cons, List.map_cons, List.map_cons, unplaced_placed words]
    rfl

/-- A word takes at least one character. -/
theorem length_le_length_text {words : List Spaced}
    (spelled : ∀ word ∈ words, word.token.WellSpelled) :
    words.length ≤ (text words).length := by
  induction words with
  | nil => exact Nat.le_refl 0
  | cons word words ih =>
    have hrest := ih fun other mem => spelled other (List.mem_cons_of_mem _ mem)
    have hfirst := List.length_pos_iff.mpr (spelled word List.mem_cons_self).2.isLine_and_ne_nil.2
    rw [text_cons, chars, List.length_append, List.length_append, List.length_cons]
    omega

end Spaced

namespace Lexer

/-- A word with layout in front and behind is read as its token, if its kind fits. -/
theorem next_word {word : Spaced} {behind : List Char} {previous : Option Terminal}
    (layout : Layout word.gap) (spelled : word.token.WellSpelled)
    (fits : word.token.kind.fits (previous.any endsOperand) = true)
    (opens : ∀ c ∈ behind.head?, c ∈ layoutChars) (before : List Char) :
    (⟨word.chars ++ behind, lineBehind before, previous⟩ : Lexer).next =
      ({ word.token with line := lineBehind (before ++ word.gap) },
        ⟨behind, lineBehind (before ++ word.chars), some word.token.kind⟩) := by
  obtain ⟨first, text, piece, hsplit, -, hcut, hkind⟩ :=
    Cut.takesWhole spelled.2 fits behind opens
  have htoken : (Cut.of first text).piece.kind? previous = some word.token.kind := by
    rw [hcut, hkind]
  rw [word.lineBehind_chars spelled.2.isLine_and_ne_nil.1, lineBehind_append, Spaced.chars,
    List.append_assoc, next_append _ _ layout, hsplit, next_token _ _ htoken, hcut, give,
    Token.eq_given spelled.1]

/-- Words with layout between them are read one by one, as the tokens they were written for. -/
theorem take_text (before : List Char) (previous : Option Terminal) {words : List Spaced}
    {last : List Char} (gaps : ∀ word ∈ words, Layout word.gap)
    (apart : ∀ word ∈ words.tail, word.gap ≠ []) (final : FinalLayout last)
    (spelled : ∀ word ∈ words, word.token.WellSpelled) {result : Bool}
    (passes : ((words.map fun word => word.token.kind).map Symbol.terminal).foldlM Language.pass
      (previous.any endsOperand) = some result) :
    (TokenSource.take (⟨Spaced.text words ++ last, lineBehind before, previous⟩ : Lexer)
      (words.length + 1)).1 =
        Spaced.placed before words ++
          [.atEnd (lineBehind (before ++ Spaced.text words ++ last))] := by
  induction words generalizing before previous with
  | nil =>
    have hnext : TokenSource.next (⟨last, lineBehind before, previous⟩ : Lexer) = _ :=
      next_final _ _ final
    change [(TokenSource.next (⟨last, lineBehind before, previous⟩ : Lexer)).1] = _
    rw [hnext, ← lineBehind_append]
    simp [Spaced.placed, Spaced.text]
  | cons word words ih =>
    obtain ⟨hgap, hgaps⟩ := List.forall_mem_cons.mp gaps
    obtain ⟨hspelled, hspelledAll⟩ := List.forall_mem_cons.mp spelled
    obtain ⟨hfits, hpasses⟩ := Language.pass_terminal_cons passes
    -- what stands behind the word begins with layout, so that the word ends where it should
    have hopens := Spaced.head_mem hgaps apart final
    have hnext : TokenSource.next (⟨word.chars ++ (Spaced.text words ++ last),
        lineBehind before, previous⟩ : Lexer) = _ := next_word hgap hspelled hfits hopens before
    have hrest := ih (before ++ word.chars) (some word.token.kind) hgaps
      (fun other mem => apart other (List.mem_of_mem_tail mem)) hspelledAll hpasses
    rw [Spaced.text_cons, List.append_assoc _ (Spaced.text words), ← List.append_assoc before,
      List.length_cons, TokenSource.take, hnext, hrest, Spaced.placed, List.cons_append]

end Lexer

namespace Language

/-- A tree of a program comes back from its text, whatever layout its leaves are written with, each
leaf on the line of its lexeme. -/
theorem parseText_written {tree : ParseTree} (program : IsProgramTree tree)
    (spelled : ∀ token ∈ tree.leaves, token.WellSpelled) {words : List Spaced} {last : List Char}
    (leaves : words.map Spaced.token = tree.leaves) (gaps : ∀ word ∈ words, Layout word.gap)
    (apart : ∀ word ∈ words.tail, word.gap ≠ []) (final : FinalLayout last) :
    ∃ placed, parseText (String.ofList (Spaced.text words ++ last)) = .accepted placed ∧
      placed.SameUpToLines tree ∧ placed.leaves = Spaced.placed [] words := by
  have hspelled : ∀ word ∈ words, word.token.WellSpelled := by
    rw [← leaves] at spelled
    exact List.forall_mem_map.mp spelled
  have hkinds : words.map (fun word => word.token.kind) = tree.kinds := by
    rw [ParseTree.kinds, ← leaves, List.map_map]
    rfl
  have hpasses := pass_program program
  rw [← hkinds] at hpasses
  have htaken := Lexer.take_text [] none gaps apart final hspelled hpasses
  have hsame := Spaced.unplaced_placed words []
  rw [leaves] at hsame
  obtain ⟨placed, hleaves, hrelabel⟩ := ParseTree.exists_relabel tree hsame
  have hkeeps : ∀ token : Token, token.unplaced.kind = token.kind := fun _ => rfl
  have hplaced : IsProgramTree placed := by
    refine ⟨program.1.of_relabel_eq hkeeps hrelabel, ?_⟩
    rw [← program.2, ← ParseTree.symbol_relabel hkeeps placed, hrelabel,
      ParseTree.symbol_relabel hkeeps tree]
  have hlength : placed.leaves.length = words.length := by
    rw [hleaves, ← List.length_map Token.unplaced, hsame, List.length_map, ← leaves,
      List.length_map]
  have hsize := size_le hplaced
  have htext := Spaced.length_le_length_text hspelled
  refine ⟨placed, ?_, hrelabel, hleaves⟩
  have hend : (Token.atEnd (lineBehind ([] ++ Spaced.text words ++ last))).kind = .endOfInput := rfl
  refine accepts_derivation hplaced hend ?_ ?_
  · rw [hlength, hleaves, Lexer.ofString, String.toList_ofList]
    exact htaken
  · change placed.size < 7 * (String.ofList (Spaced.text words ++ last)).toList.length + 1
    rw [String.toList_ofList, List.length_append]
    omega

/-- A program that subtracts a negative number. -/
def dashProgram : ParseTree :=
  .node .program [.leaf (.bare .prog 1), .leaf ⟨.ident, some "p", 1⟩, .leaf (.bare .colon 1),
    .node .block [
      .node .statement [.node .assignment [
        .leaf (.bare .set 1), .leaf ⟨.ident, some "x", 1⟩, .leaf (.bare .assign 1),
        .node .disjunction [.node .conjunction [.node .comparison [.node .sum [
          .node .sum [.node .product [.node .factor [.leaf ⟨.ident, some "a", 1⟩]]],
          .leaf ⟨.addOp, some "-", 1⟩,
          .node .product [.node .factor [.leaf (.bare .minus 1),
            .node .factor [.leaf ⟨.literal, some "7", 1⟩]]]]]]],
        .leaf (.bare .semicolon 1)]],
      .node .block [.leaf (.bare .done 1)]],
    .leaf (.bare .smile 1)]

/-- The words of the program, with a comment and some newlines among the blanks. -/
def dashWords : List Spaced :=
  List.zipWith Spaced.mk
    (["", " ", "\t", "# - 1\n", " ", " ", " ", " ", "\n", " ", " ", "\n", " "].map String.toList)
    dashProgram.leaves

theorem parseText_written_dashes : IsProgramTree dashProgram ∧ ∃ placed,
    parseText "prog p\t:# - 1\nset x = a -\n- 7 ;\ndone :) # end" = .accepted placed ∧
      placed.SameUpToLines dashProgram ∧
      placed.leaves.map Token.line = [1, 1, 1, 2, 2, 2, 2, 2, 3, 3, 3, 4, 4] := by
  have hprogram : IsProgramTree dashProgram := by decide
  have hspelled : ∀ token ∈ dashProgram.leaves, token.WellSpelled := by
    have hname : ∀ name : Char, isWordStart name = true → [name] ∉ keywords.map Prod.fst →
        Lexeme .ident [name] := fun name start free => .ident start (List.forall_mem_nil _) free
    have hnumber : IsNumber ['7'] := ⟨List.cons_ne_nil _ _, List.forall_mem_singleton.mpr rfl⟩
    simp only [dashProgram, ParseTree.leaves, ParseTree.leavesAll, List.cons_append,
      List.nil_append, List.append_nil, List.forall_mem_cons]
    exact ⟨⟨rfl, .spelled rfl⟩, ⟨rfl, hname 'p' rfl (by decide)⟩, ⟨rfl, .spelled rfl⟩,
      ⟨rfl, .spelled rfl⟩, ⟨rfl, hname 'x' rfl (by decide)⟩, ⟨rfl, .spelled rfl⟩,
      ⟨rfl, hname 'a' rfl (by decide)⟩, ⟨rfl, .addOp (show "-" ∈ ["+", "-"] by decide)⟩,
      ⟨rfl, .spelled rfl⟩, ⟨rfl, .whole hnumber⟩,
      ⟨rfl, .spelled rfl⟩, ⟨rfl, .spelled rfl⟩, ⟨rfl, .spelled rfl⟩, List.forall_mem_nil _⟩
  have hgaps : ∀ word ∈ dashWords, Layout word.gap := by
    have hmem : ∀ word ∈ dashWords, word.gap ∈ [[], [' '], ['\t'], ['\n'], "# - 1\n".toList] := by
      decide
    have hlayout : ∀ gap ∈ [[], [' '], ['\t'], ['\n'], "# - 1\n".toList], Layout gap := by
      simp only [List.forall_mem_cons]
      exact ⟨.nil, .blank rfl .nil, .blank rfl .nil, .newline .nil,
        .comment (show IsLine [' ', '-', ' ', '1'] by simp [IsLine]) .nil, List.forall_mem_nil _⟩
    exact fun word mem => hlayout word.gap (hmem word mem)
  have hfinal : FinalLayout " # end".toList :=
    .comment (.blank rfl .nil) (show IsLine [' ', 'e', 'n', 'd'] by simp [IsLine])
  have htokens : dashWords.map Spaced.token = dashProgram.leaves := by decide
  obtain ⟨placed, hparse, hsame, hleaves⟩ :=
    parseText_written hprogram hspelled htokens hgaps (by decide) hfinal
  refine ⟨hprogram, placed, hparse, hsame, ?_⟩
  rw [hleaves]
  decide

end Language

end ShiftReduce
