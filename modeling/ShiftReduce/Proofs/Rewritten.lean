import ShiftReduce.Proofs.LineByLine

/-!
Lexemes written out again. Whatever a text is, errors and all, each of its lexemes is found again
on a line of its own: behind a newline and any other layout, with nothing behind it on the line. A
dash keeps its sign, since the token before it is the same. So the lexemes of a text, written one
below the other, are read as the tokens they were.
-/

namespace ShiftReduce

namespace Spaced

/-- Words each on a new line begin with a newline or not at all. -/
theorem head_newline {words : List Spaced}
    (apart : ∀ word ∈ words, word.gap.head? = some '\n') : ∀ c ∈ (text words).head?, c = '\n' := by
  cases words with
  | nil => nofun
  | cons word words =>
    have hgap := apart word List.mem_cons_self
    intro c mem
    rw [text_cons, chars, List.append_assoc, List.head?_append, hgap] at mem
    exact (Option.some.inj mem).symm

end Spaced

/-- The tokens that were read from a text are read again from their lexemes, each on a new line. -/
theorem Lexer.Reads.tokens_rewritten {lexer : Lexer} {old words : List Spaced} {last : List Char}
    (reads : Reads lexer old last) (tokens : words.map Spaced.token = old.map Spaced.token)
    (gaps : ∀ word ∈ words, Layout word.gap)
    (apart : ∀ word ∈ words.tail, word.gap.head? = some '\n') (before : List Char) :
    FiniteSource.tokens (⟨Spaced.text words, lineBehind before, lexer.previous⟩ : Lexer) =
      Spaced.placed before words := by
  induction reads generalizing words before with
  | done layout =>
    obtain rfl : words = [] := List.map_eq_nil_iff.mp tokens
    exact tokens_final (.closed .nil)
  | @token lexer next gap token old last gives split layout line_eq same_line intact reads ih =>
    cases words with
    | nil => cases tokens
    | cons word words =>
      obtain ⟨hgap, hgaps⟩ := List.forall_mem_cons.mp gaps
      obtain ⟨rfl, htokens⟩ := List.cons.inj tokens
      have hapart : ∀ other ∈ words, other.gap.head? = some '\n' := apart
      -- the line of the lexeme ends with it
      have hends : firstLine (word.token.lexeme.toList ++ Spaced.text words) <+:
          word.token.lexeme.toList ++ next.rest := by
        rw [firstLine_append intact.isLine (Spaced.head_newline hapart)]
        exact List.prefix_append _ _
      have hnext := next_again gives intact hgap hends (lineBehind before) lexer.previous
      rw [behind_of_next gives intact, ← (kind_of_next gives intact.not_end).1,
        ← lineBehind_append, ← List.append_assoc] at hnext
      have hrest := ih htokens hgaps
        (fun other mem => hapart other (List.mem_of_mem_tail mem)) (before ++ word.chars)
      rw [word.lineBehind_chars intact.isLine] at hrest
      rw [Spaced.text_cons, Spaced.placed, ← hrest]
      exact tokens_cons hnext intact.not_end

/-- Lexemes, unknown ones among them, that are written out again behind newlines are read as the
same tokens, on their new lines. -/
theorem tokenize_rewritten {text : String} {words : List Spaced}
    (tokens : words.map Spaced.token = tokenize text) (gaps : ∀ word ∈ words, Layout word.gap)
    (apart : ∀ word ∈ words.tail, word.gap.head? = some '\n') :
    tokenize (String.ofList (Spaced.text words)) = Spaced.placed [] words ∧
      (tokenize (String.ofList (Spaced.text words))).map Token.unplaced =
        (tokenize text).map Token.unplaced := by
  obtain ⟨old, last, hreads⟩ := Lexer.exists_reads (Lexer.ofString text)
  have hold : tokenize text = old.map Spaced.token := hreads.tokens_eq
  have hwritten := hreads.tokens_rewritten (tokens.trans hold) gaps apart []
  have htokenize : tokenize (String.ofList (Spaced.text words)) = Spaced.placed [] words := by
    rw [tokenize, Lexer.ofString, String.toList_ofList]
    exact hwritten
  refine ⟨htokenize, ?_⟩
  rw [htokenize, Spaced.unplaced_placed, tokens]

/-- The words of a text with errors, each on a new line, with a comment and a blank line among
them. -/
def astrayWords : List Spaced :=
  List.zipWith Spaced.mk (["", "\n", "\n# \"\n", "\n \t", "\n\n", "\n\r"].map String.toList)
    [⟨.ident, some "a", 1⟩, ⟨.addOp, some "-", 1⟩, ⟨.unknown, some "|", 1⟩,
      ⟨.unknown, some ".", 1⟩, ⟨.minus, none, 1⟩, ⟨.unknown, some "\"b;", 1⟩]

/-- What is astray stays astray, and each of the dashes keeps its sign. -/
theorem tokenize_rewritten_astray :
    astrayWords.map Spaced.token = tokenize "a -|.- \"b;" ∧
    (∀ word ∈ astrayWords, Layout word.gap) ∧
    (∀ word ∈ astrayWords.tail, word.gap.head? = some '\n') ∧
    tokenize "a\n-\n# \"\n|\n \t.\n\n-\n\r\"b;" = Spaced.placed [] astrayWords ∧
    (Spaced.placed [] astrayWords).map Token.line = [1, 2, 4, 5, 7, 8] := by
  have htokens : astrayWords.map Spaced.token = tokenize "a -|.- \"b;" := by decide +kernel
  have hgaps : ∀ word ∈ astrayWords, Layout word.gap := by
    have hmem : ∀ word ∈ astrayWords, word.gap ∈ ["", "\n", "\n# \"\n", "\n \t", "\n\n",
        "\n\r"].map String.toList := by decide
    have hbody : IsLine [' ', '"'] := by simp [IsLine]
    have hlayout : ∀ gap ∈ ["", "\n", "\n# \"\n", "\n \t", "\n\n", "\n\r"].map String.toList,
        Layout gap := by
      simp only [List.map_cons, List.map_nil, List.forall_mem_cons]
      exact ⟨.nil, .newline .nil, .newline (.comment hbody .nil),
        .newline (.blank rfl (.blank rfl .nil)), .newline (.newline .nil),
        .newline (.blank rfl .nil), List.forall_mem_nil _⟩
    exact fun word mem => hlayout word.gap (hmem word mem)
  have hapart : ∀ word ∈ astrayWords.tail, word.gap.head? = some '\n' := by decide
  obtain ⟨hplaced, -⟩ := tokenize_rewritten htokens hgaps hapart
  exact ⟨htokens, hgaps, hapart, hplaced, by decide⟩

end ShiftReduce
