import ShiftReduce.Proofs.Skipping

/-!
Nothing of a text is lost. A text is written out of the tokens that the lexer reads from it, each
with some layout in front of its lexeme, and of layout behind the last; no lexeme holds a newline,
so the line of a token is told by the newlines in front of it. Behind the last token the lexer
gives out end tokens on the last line for ever.
-/

namespace ShiftReduce

/-! ### Text written out of tokens -/

/-- The line on which stands what follows a text. -/
def lineBehind (text : List Char) : Nat := 1 + text.count '\n'

theorem lineBehind_append (front back : List Char) :
    lineBehind (front ++ back) = lineBehind front + back.count '\n' := by
  rw [lineBehind, lineBehind, List.count_append, Nat.add_assoc]

/-- A token with the layout in front of it. -/
structure Spaced where
  gap : List Char
  token : Token
  deriving DecidableEq, Repr

namespace Spaced

/-- The layout and behind it the lexeme. -/
def chars (word : Spaced) : List Char := word.gap ++ word.token.lexeme.toList

/-- The text of neighbouring words. -/
def text (words : List Spaced) : List Char := words.flatMap chars

/-- The tokens of words written out behind a text, each on the line on which its lexeme stands. -/
def placed (before : List Char) : List Spaced → List Token
  | [] => []
  | word :: words =>
    { word.token with line := lineBehind (before ++ word.gap) } ::
      placed (before ++ word.chars) words

theorem chars_mk (gap : List Char) (token : Token) :
    chars ⟨gap, token⟩ = gap ++ token.lexeme.toList := rfl

theorem text_cons (word : Spaced) (words : List Spaced) :
    text (word :: words) = word.chars ++ text words := List.flatMap_cons

/-- A lexeme on one line leaves the line as it is behind the layout. -/
theorem lineBehind_chars (word : Spaced) (isLine : IsLine word.token.lexeme.toList)
    (before : List Char) : lineBehind (before ++ word.chars) = lineBehind (before ++ word.gap) := by
  rw [chars, ← List.append_assoc, lineBehind_append (before ++ word.gap), isLine.count_eq_zero,
    Nat.add_zero]

/-- The line of a placed token is one more than the newlines before its lexeme. -/
theorem line_placed (front : List Spaced) (word : Spaced) (back : List Spaced)
    (before : List Char) :
    (placed before (front ++ word :: back))[front.length]?.map Token.line =
      some (lineBehind (before ++ text front ++ word.gap)) := by
  induction front generalizing before with
  | nil => simp [placed, text]
  | cons first front ih =>
    rw [List.cons_append, placed, List.length_cons, List.getElem?_cons_succ, ih, text_cons,
      List.append_assoc before]

end Spaced

/-- What is true of each token that is read: it is no end token, has a text exactly when its kind
carries one and else is the spelling of its kind, and its lexeme lies on one line. -/
structure Token.Intact (token : Token) : Prop where
  not_end : token.kind ≠ .endOfInput
  text_isSome : token.text.isSome = token.kind.carriesText
  spelled : token.kind.carriesText = false → token.kind.spelling = some token.lexeme
  nonempty : token.lexeme ≠ ""
  isLine : IsLine token.lexeme.toList

/-- What a token is read as on a line, if it has a text exactly when its kind carries one. -/
theorem Token.eq_given {token : Token} (text_isSome : token.text.isSome = token.kind.carriesText)
    (line : Nat) :
    (⟨token.kind, if token.kind.carriesText then some (String.ofList token.lexeme.toList) else none,
      line⟩ : Token) = { token with line } := by
  rw [← text_isSome, String.ofList_toList]
  obtain ⟨kind, _ | text, old⟩ := token <;> rfl

/-! ### Reading a text -/

namespace Lexer

/-- A cut that is a token gives a token whose lexeme is what was cut off. -/
theorem lexeme_give {lexer : Lexer} {previous : Option Terminal} {kind : Terminal} {cut : Cut}
    (isToken : cut.IsToken previous kind) :
    (lexer.give kind cut).1.lexeme = String.ofList cut.lexeme := by
  rw [give, Token.lexeme]
  cases hcarries : kind.carriesText with
  | true => rfl
  | false =>
    have hspelled := isToken.spelled
    rw [hcarries] at hspelled
    rw [if_neg Bool.false_ne_true, Option.getD_none, hspelled.resolve_left Bool.false_ne_true,
      Option.getD_some]

theorem intact_give (lexer : Lexer) {previous : Option Terminal} {kind : Terminal} {first : Char}
    {text : List Char} (isToken : (Cut.of first text).IsToken previous kind) :
    (lexer.give kind (Cut.of first text)).1.Intact := by
  refine ⟨?_, ?_, ?_, ?_, ?_⟩
  · rintro (rfl : kind = .endOfInput)
    rcases isToken.spelled with h | h <;> cases h
  · rw [give]
    cases hcarries : kind.carriesText <;> rfl
  · intro hcarries
    rw [lexeme_give isToken]
    change kind.carriesText = false at hcarries
    rcases isToken.spelled with h | h
    · rw [hcarries] at h
      cases h
    · exact h
  · rw [lexeme_give isToken, Ne, String.ofList_eq_empty_iff]
    intro h
    have hfirst := Cut.head?_lexeme first text
    rw [h] at hfirst
    cases hfirst
  · rw [lexeme_give isToken, String.toList_ofList]
    exact isToken.isLine

/-- A token that is no end token is what was cut off behind layout, and the lexer goes on behind it
and remembers its kind. -/
theorem cut_of_next {lexer next : Lexer} {token : Token} (gives : lexer.next = (token, next))
    (not_end : token.kind ≠ .endOfInput) : ∃ first text,
      (Cut.of first text).IsToken lexer.previous token.kind ∧
      token.lexeme.toList = (Cut.of first text).lexeme ∧
      next.rest = (Cut.of first text).rest ∧ next.previous = some token.kind := by
  rcases next_cases lexer with ⟨-, hfinal⟩ | ⟨gap, first, text, kind, -, -, htoken, hnext⟩
  · obtain ⟨rfl, -⟩ := Prod.mk.inj (gives.symm.trans hfinal)
    exact absurd rfl not_end
  · obtain ⟨htok, hafter⟩ := Prod.mk.inj (gives.symm.trans hnext)
    have hlexeme : token.lexeme = String.ofList (Cut.of first text).lexeme :=
      (congrArg Token.lexeme htok).trans (lexeme_give htoken)
    obtain rfl : token.kind = kind := congrArg Token.kind htok
    exact ⟨first, text, htoken, by rw [hlexeme, String.toList_ofList],
      congrArg Lexer.rest hafter, congrArg Lexer.previous hafter⟩

/-- A lexer reads its text as these words, up to layout to its end. -/
inductive Reads : Lexer → List Spaced → List Char → Prop
  | done {lexer : Lexer} (layout : FinalLayout lexer.rest) : Reads lexer [] lexer.rest
  | token {lexer next : Lexer} {gap : List Char} {token : Token} {words : List Spaced}
      {last : List Char} (gives : lexer.next = (token, next))
      (split : lexer.rest = gap ++ token.lexeme.toList ++ next.rest) (layout : Layout gap)
      (line_eq : token.line = lexer.line + gap.count '\n') (same_line : next.line = token.line)
      (intact : token.Intact) (reads : Reads next words last) :
      Reads lexer (⟨gap, token⟩ :: words) last

/-- Every lexer reads its whole text. -/
theorem exists_reads (lexer : Lexer) : ∃ words last, Reads lexer words last := by
  rcases next_cases lexer with ⟨hfinal, -⟩ | ⟨gap, first, text, kind, hrest, hgap, htoken, hnext⟩
  · exact ⟨[], _, .done hfinal⟩
  · have hintact := intact_give ⟨first :: text, lexer.line + gap.count '\n', lexer.previous⟩ htoken
    have hshorter : lexer.next.2.rest.length < lexer.rest.length :=
      length_rest_next_lt lexer (by rw [hnext]; exact hintact.not_end)
    obtain ⟨words, last, hreads⟩ := exists_reads lexer.next.2
    refine ⟨⟨gap, lexer.next.1⟩ :: words, last, .token rfl ?_ hgap ?_ ?_ ?_ hreads⟩
    · rw [hnext, lexeme_give htoken, String.toList_ofList, hrest, List.append_assoc]
      exact congrArg (gap ++ ·) (Cut.lexeme_append_rest first text).symm
    · rw [hnext]
      rfl
    · rw [hnext]
      rfl
    · rw [hnext]
      exact hintact
termination_by lexer.rest.length

/-- A lexer gives out its next token and then those of the lexer behind it. -/
theorem tokens_cons {lexer next : Lexer} {token : Token} (gives : lexer.next = (token, next))
    (not_end : token.kind ≠ .endOfInput) :
    FiniteSource.tokens lexer = token :: FiniteSource.tokens next := by
  have hnext : TokenSource.next lexer = (token, next) := gives
  rw [FiniteSource.tokens, hnext, if_neg not_end]

/-- The last line of a text is the same however much of it has been read. -/
theorem last_line_next {lexer next : Lexer} {gap : List Char} {token : Token}
    (split : lexer.rest = gap ++ token.lexeme.toList ++ next.rest)
    (line_eq : token.line = lexer.line + gap.count '\n') (same_line : next.line = token.line)
    (isLine : IsLine token.lexeme.toList) :
    next.line + next.rest.count '\n' = lexer.line + lexer.rest.count '\n' := by
  rw [same_line, line_eq, split, List.count_append, List.count_append, isLine.count_eq_zero,
    Nat.add_zero, Nat.add_assoc]

namespace Reads

variable {lexer : Lexer} {words : List Spaced} {last : List Char}

theorem rest_eq (reads : Reads lexer words last) : lexer.rest = Spaced.text words ++ last := by
  induction reads with
  | done layout => rfl
  | token gives split layout line_eq same_line intact reads ih =>
    rw [split, ih, Spaced.text_cons, Spaced.chars_mk, ← List.append_assoc]

theorem tokens_eq (reads : Reads lexer words last) :
    FiniteSource.tokens lexer = words.map Spaced.token := by
  induction reads with
  | done layout =>
    rw [FiniteSource.tokens]
    exact if_pos (congrArg (fun pulled => pulled.1.kind) (next_final _ _ layout))
  | token gives split layout line_eq same_line intact reads ih =>
    rw [tokens_cons gives intact.not_end, ih, List.map_cons]

theorem layouts (reads : Reads lexer words last) :
    (∀ word ∈ words, Layout word.gap) ∧ FinalLayout last := by
  induction reads with
  | done layout => exact ⟨List.forall_mem_nil _, layout⟩
  | token gives split layout line_eq same_line intact reads ih =>
    exact ⟨List.forall_mem_cons.mpr ⟨layout, ih.1⟩, ih.2⟩

theorem intact (reads : Reads lexer words last) : ∀ word ∈ words, word.token.Intact := by
  induction reads with
  | done layout => exact List.forall_mem_nil _
  | token gives split layout line_eq same_line intact reads ih =>
    exact List.forall_mem_cons.mpr ⟨intact, ih⟩

/-- The tokens stand where their lexemes are. -/
theorem placed_eq (reads : Reads lexer words last) {before : List Char}
    (line_eq : lexer.line = lineBehind before) :
    Spaced.placed before words = words.map Spaced.token := by
  induction reads generalizing before with
  | done layout => rfl
  | @token lexer next gap token words last gives split layout at_line same_line intact reads ih =>
    have hline : token.line = lineBehind (before ++ gap) := by
      rw [at_line, line_eq, lineBehind_append]
    have hnext : next.line = lineBehind (before ++ Spaced.chars ⟨gap, token⟩) := by
      rw [same_line, hline, Spaced.lineBehind_chars ⟨gap, token⟩ intact.isLine]
    rw [Spaced.placed, ih hnext, List.map_cons, ← hline]

/-- Lines never decrease. -/
theorem lines_ascending (reads : Reads lexer words last) :
    (∀ word ∈ words, lexer.line ≤ word.token.line) ∧
      (words.map fun word => word.token.line).Pairwise (· ≤ ·) := by
  induction reads with
  | done layout => exact ⟨List.forall_mem_nil _, .nil⟩
  | token gives split layout line_eq same_line intact reads ih =>
    obtain ⟨hlater, hascending⟩ := ih
    rw [same_line] at hlater
    refine ⟨List.forall_mem_cons.mpr ⟨?_, fun word mem => ?_⟩, .cons ?_ hascending⟩
    · rw [line_eq]
      exact Nat.le_add_right _ _
    · exact Nat.le_trans (line_eq ▸ Nat.le_add_right _ _) (hlater word mem)
    · exact List.forall_mem_map.mpr hlater

end Reads

theorem take_nil (line : Nat) (previous : Option Terminal) (count : Nat) :
    TokenSource.take (⟨[], line, previous⟩ : Lexer) count =
      (List.replicate count (.atEnd line), ⟨[], line, previous⟩) := by
  have hnext : TokenSource.next (⟨[], line, previous⟩ : Lexer) = _ := next_nil line previous
  induction count with
  | zero => rfl
  | succ count ih => rw [TokenSource.take, hnext, ih, List.replicate_succ]

/-- Behind the tokens come end tokens on the last line. -/
theorem Reads.take_eq {lexer : Lexer} {words : List Spaced} {last : List Char}
    (reads : Reads lexer words last) (extra : Nat) :
    ∃ behind : Lexer, behind.line = lexer.line + lexer.rest.count '\n' ∧
      TokenSource.take lexer (words.length + (extra + 1)) =
        (words.map Spaced.token ++
          List.replicate (extra + 1) (.atEnd (lexer.line + lexer.rest.count '\n')), behind) := by
  induction reads with
  | @done lexer layout =>
    have hnext : TokenSource.next lexer = _ := next_final _ _ layout
    refine ⟨⟨[], lexer.line + lexer.rest.count '\n', lexer.previous⟩, rfl, ?_⟩
    rw [List.length_nil, Nat.zero_add, TokenSource.take, hnext, take_nil, List.replicate_succ]
    rfl
  | @token lexer next gap token words last gives split layout line_eq same_line intact reads ih =>
    have hnext : TokenSource.next lexer = (token, next) := gives
    have hlast := last_line_next split line_eq same_line intact.isLine
    obtain ⟨behind, hbehind, htake⟩ := ih
    rw [hlast] at hbehind htake
    refine ⟨behind, hbehind, ?_⟩
    rw [List.length_cons, Nat.add_right_comm, TokenSource.take, hnext, htake]
    rfl

end Lexer

/-! ### The tokens of a text -/

/-- Every token that is read is intact. -/
theorem intact_of_mem_tokenize {text : String} {token : Token} (mem : token ∈ tokenize text) :
    token.Intact := by
  obtain ⟨words, last, hreads⟩ := Lexer.exists_reads (Lexer.ofString text)
  rw [tokenize, hreads.tokens_eq] at mem
  obtain ⟨word, hword, rfl⟩ := List.mem_map.mp mem
  exact hreads.intact word hword

/-- The tokens of a text stand on lines that never decrease. -/
theorem tokenize_ascending (text : String) :
    ((tokenize text).map Token.line).Pairwise (· ≤ ·) := by
  obtain ⟨words, last, hreads⟩ := Lexer.exists_reads (Lexer.ofString text)
  rw [tokenize, hreads.tokens_eq, List.map_map]
  exact hreads.lines_ascending.2

/-- A text is written out of the lexemes of its tokens, with layout before, between and behind them,
and each token stands on the line of its lexeme. -/
theorem tokenize_lossless (text : String) :
    ∃ (words : List Spaced) (last : List Char),
      text.toList = Spaced.text words ++ last ∧
      words.map Spaced.token = tokenize text ∧
      (∀ word ∈ words, Layout word.gap) ∧ FinalLayout last ∧
      (∀ token ∈ tokenize text, token.Intact) ∧
      (∀ front word back, words = front ++ word :: back →
        word.token.line = lineBehind (Spaced.text front ++ word.gap)) ∧
      ((tokenize text).map Token.line).Pairwise (· ≤ ·) ∧
      ∀ extra, ∃ lexer : Lexer, lexer.line = lineBehind text.toList ∧
        TokenSource.take (Lexer.ofString text) (words.length + (extra + 1)) =
          (tokenize text ++ List.replicate (extra + 1) (.atEnd (lineBehind text.toList)),
            lexer) := by
  obtain ⟨words, last, hreads⟩ := Lexer.exists_reads (Lexer.ofString text)
  obtain ⟨hgaps, hlast⟩ := hreads.layouts
  have htokens : tokenize text = words.map Spaced.token := hreads.tokens_eq
  rw [htokens]
  refine ⟨words, last, hreads.rest_eq, rfl, hgaps, hlast, List.forall_mem_map.mpr hreads.intact,
    ?_, ?_, hreads.take_eq⟩
  · rintro front word back rfl
    have hline := Spaced.line_placed front word back []
    rw [hreads.placed_eq rfl, List.map_append, List.map_cons,
      List.getElem?_append_right (Nat.le_of_eq (List.length_map _)), List.length_map, Nat.sub_self]
      at hline
    exact Option.some.inj hline
  · rw [List.map_map]
    exact hreads.lines_ascending.2

end ShiftReduce
