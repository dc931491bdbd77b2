import ShiftReduce.Proofs.Lossless
import ShiftReduce.Proofs.Patterns

/-!
The lexer finds what the patterns declare. Whatever the first character, the cut is as long as any
text that they match there and stands for the same piece, and where it is no match of theirs there
is none. So behind every layout the lexer gives out the one token that the patterns choose, or what
stands astray.
-/

namespace ShiftReduce

/-! ### What is cut off -/

namespace Cut

open Pattern

/-- The piece that is cut off is what the patterns choose, or else what stands astray. -/
def AsDeclared (text : List Char) (cut : Cut) : Prop :=
  Chosen text cut.piece cut.lexeme ∨
    (Unmatched text ∧ Astray text cut.lexeme ∧ cut.piece = .token .unknown)

variable {first : Char}

theorem chosen_word (start : isWordStart first = true) (text : List Char) :
    Chosen (first :: text) (word first text).piece (word first text).lexeme where
  begins := ⟨text.dropWhile isWordPart, by simp [word]⟩
  matched := by
    rw [word]
    rcases wordKind_cases (first :: text.takeWhile isWordPart) with hkeyword | ⟨hident, -⟩
    · exact Or.inl (keywords_spelled _ hkeyword)
    · rw [hident]
      exact Or.inr (inClass_word (mem_word.mpr ⟨first, _, rfl, start, mem_takeWhile⟩))
  longest := by
    intro other front begins hmatch
    obtain ⟨more, rfl, hmore⟩ := hmatch.exists_cons begins
    exact Nat.succ_le_succ (length_le_takeWhile hmore (hmatch.of_word start))
  spelled := by
    intro other hspelled
    obtain rfl : other = (word first text).piece := (spellings_word _ hspelled start).2
    exact hspelled

/-- The cut of a number holds its leading digits. -/
theorem length_le_number (first : Char) (text : List Char) :
    (first :: text.takeWhile Char.isDigit).length ≤ (number first text).lexeme.length := by
  rw [number]
  split
  · split
    · rw [List.length_append]
      exact Nat.le_add_right _ _
    · exact Nat.le_refl _
  · exact Nat.le_refl _

theorem piece_number (first : Char) (text : List Char) :
    (number first text).piece = .token .literal := by
  rw [number]
  repeat' split
  all_goals rfl

theorem mem_number (digit : first.isDigit = true) (text : List Char) :
    (number first text).lexeme ∈ Pattern.number := by
  have hwhole : IsNumber (first :: text.takeWhile Char.isDigit) :=
    ⟨List.cons_ne_nil _ _, List.forall_mem_cons.mpr ⟨digit, mem_takeWhile⟩⟩
  rw [number, Pattern.mem_number]
  split
  · split
    · rename_i point rest _ hpoint
      exact Or.inr ⟨_, _, rfl, hwhole, List.cons_ne_nil _ _,
        List.forall_mem_cons.mpr ⟨hpoint, mem_takeWhile⟩⟩
    · exact Or.inl hwhole
  · exact Or.inl hwhole

theorem chosen_number (digit : first.isDigit = true) (text : List Char) :
    Chosen (first :: text) (.token .literal) (number first text).lexeme where
  begins := ⟨(number first text).rest, number_append first text⟩
  matched := Or.inr (inClass_number (mem_number digit text))
  longest := by
    intro other front begins hmatch
    obtain ⟨more, rfl, hmore⟩ := hmatch.exists_cons begins
    rcases Pattern.mem_number.mp (hmatch.of_digit digit) with
      ⟨-, hall⟩ | ⟨digits, decimals, hcons, ⟨hne, hall⟩, hne', hall'⟩
    · refine Nat.le_trans (Nat.succ_le_succ (length_le_takeWhile hmore ?_))
        (length_le_number first text)
      exact (List.forall_mem_cons.mp hall).2
    · -- the fraction begins where the leading digits end
      obtain ⟨_, digits, rfl⟩ := List.exists_cons_of_ne_nil hne
      obtain ⟨point, decimals, rfl⟩ := List.exists_cons_of_ne_nil hne'
      rw [List.cons_append] at hcons
      obtain ⟨rfl, rfl⟩ := List.cons.inj hcons
      obtain ⟨behind, rfl⟩ := hmore
      obtain ⟨hpoint, hdecimals⟩ := List.forall_mem_cons.mp hall'
      have hstops : '.'.isDigit = false := rfl
      obtain ⟨htake, hdrop⟩ :=
        span_stops_at (point :: decimals ++ behind) (List.forall_mem_cons.mp hall).2 hstops
      rw [List.append_assoc, List.cons_append, number, htake, hdrop]
      simp only [List.cons_append, hpoint, if_true, List.length_cons, List.length_append]
      have hlength := length_le_takeWhile (List.prefix_append decimals behind) hdecimals
      omega
  spelled := by
    intro other hspelled
    have hplain := spellings_not_digit _ hspelled
    rw [← of_digit digit, head?_lexeme, Option.any_some, digit] at hplain
    cases hplain

/-- What matches from a quote on reaches to the next quote on the line. -/
theorem eq_quoted_of_matches {piece : Piece} {front text : List Char} (h : Matches piece front)
    (begins : front <+: '"' :: text) : ∃ rest, text.dropWhile isQuotable = '"' :: rest ∧
      front = '"' :: text.takeWhile isQuotable ++ ['"'] := by
  obtain ⟨more, rfl, behind, rfl⟩ := h.exists_cons begins
  obtain ⟨body, hcons, hbody⟩ := mem_quoted.mp h.of_quote
  obtain rfl : more = body ++ ['"'] := (List.cons.inj hcons).2
  have hquote : isQuotable '"' = false := rfl
  obtain ⟨htake, hdrop⟩ := span_stops_at behind hbody hquote
  rw [List.append_assoc, List.singleton_append, htake, hdrop]
  exact ⟨behind, rfl, rfl⟩

theorem asDeclared_quoted (text : List Char) : AsDeclared ('"' :: text) (quoted text) := by
  have hwhole : text.takeWhile isQuotable ++ text.dropWhile isQuotable = text :=
    List.takeWhile_append_dropWhile
  rw [quoted]
  split
  · rename_i rest hdrop
    refine Or.inl ⟨⟨rest, ?_⟩, ?_, fun other front begins hmatch => ?_, fun other hspelled => ?_⟩
    · rw [List.append_assoc, List.singleton_append, List.cons_append, ← hdrop, hwhole]
    · exact Or.inr (inClass_quoted (mem_quoted.mpr ⟨_, rfl, mem_takeWhile⟩))
    · obtain ⟨-, -, rfl⟩ := eq_quoted_of_matches hmatch begins
      exact Nat.le_refl _
    · exact absurd rfl (spellings_not_quote _ hspelled)
  · rename_i hopen
    refine Or.inr ⟨fun piece front begins hmatch => ?_, ?_, rfl⟩
    · obtain ⟨rest, hdrop, -⟩ := eq_quoted_of_matches hmatch begins
      exact hopen rest hdrop
    · have hastray : Astray ('"' :: text.takeWhile isQuotable ++ text.dropWhile isQuotable)
          ('"' :: text.takeWhile isQuotable) := by
        refine .quote (isLine_takeWhile rfl text) fun c mem => ?_
        have hstop := List.head?_dropWhile_not isQuotable text
        rw [Option.mem_def.mp mem] at hstop
        have hquote : c ≠ '"' := by
          rintro rfl
          obtain ⟨rest, hdrop⟩ := List.head?_eq_some_iff.mp mem
          exact hopen rest hdrop
        simpa [isQuotable, hquote] using hstop
      rwa [List.cons_append, hwhole] at hastray

/-- Where no operator of two characters matches. -/
theorem asDeclared_short {text : List Char} (start : IsOperatorStart first)
    (single : ∀ second kind, [first, second] <+: first :: text →
      ([first, second], kind) ∉ longOperators) :
    AsDeclared (first :: text) (short first text) := by
  have hmatches : ∀ {piece front}, front <+: first :: text → Matches piece front →
      front = [first] ∧ ((∃ kind, (first, kind) ∈ shortOperators) ∨ first = '-') := by
    intro piece front begins hmatch
    obtain ⟨more, rfl, -⟩ := hmatch.exists_cons begins
    obtain ⟨second, kind, rfl, hlong⟩ | ⟨rfl, hshort⟩ := hmatch.of_operator start
    · exact absurd hlong (single second kind begins)
    · exact ⟨rfl, hshort⟩
  have hchosen : ∀ {piece}, ([first], piece) ∈ spellings → Chosen (first :: text) piece [first] :=
    fun hspelled => {
      begins := ⟨text, rfl⟩
      matched := Or.inl hspelled
      longest := fun other front begins hmatch => by rw [(hmatches begins hmatch).1]
      spelled := fun _ _ => hspelled }
  rw [short]
  split
  · rename_i hdash
    subst hdash
    have hspelled : (['-'], Piece.dash) ∈ spellings := by decide
    exact Or.inl (hchosen hspelled)
  · rename_i hdash
    cases hlookup : shortOperators.lookup first with
    | some kind => exact Or.inl (hchosen (shortOperators_spelled _ (mem_of_lookup hlookup)))
    | none =>
      refine Or.inr ⟨fun piece front begins hmatch => ?_, .character start.not_quote, rfl⟩
      rcases (hmatches begins hmatch).2 with ⟨kind, hshort⟩ | hfirst
      · exact not_mem_of_lookup hlookup kind hshort
      · exact hdash hfirst

theorem asDeclared_operator (start : IsOperatorStart first) (text : List Char) :
    AsDeclared (first :: text) (operator first text) := by
  cases text with
  | nil => exact asDeclared_short start fun second kind begins _ => by simpa using begins.length_le
  | cons second rest =>
    rw [operator]
    split
    · rename_i kind hlookup
      have hspelled := longOperators_spelled _ (mem_of_lookup hlookup)
      refine Or.inl ⟨⟨rest, rfl⟩, Or.inl hspelled, fun other front begins hmatch => ?_,
        fun _ _ => hspelled⟩
      obtain ⟨more, rfl, -⟩ := hmatch.exists_cons begins
      obtain ⟨_, -, rfl, -⟩ | ⟨rfl, -⟩ := hmatch.of_operator start
      · exact Nat.le_refl _
      · exact Nat.le_succ _
    · rename_i hlookup
      refine asDeclared_short start fun other kind begins hlong => ?_
      obtain ⟨rfl, -⟩ := List.cons_prefix_cons.mp (List.cons_prefix_cons.mp begins).2
      exact not_mem_of_lookup hlookup kind hlong

/-- Where no layout begins the cut is what the patterns declare. -/
theorem asDeclared_of_plain (plain : first ∉ layoutChars) (text : List Char) :
    AsDeclared (first :: text) (of first text) := by
  rw [of_plain plain]
  split
  · exact Or.inl (chosen_word ‹_› text)
  · split
    · rename_i digit
      have hchosen := chosen_number digit text
      rw [← piece_number first text] at hchosen
      exact Or.inl hchosen
    · split
      · rename_i hquote
        subst hquote
        exact asDeclared_quoted text
      · rename_i hword hdigit hquote
        exact asDeclared_operator
          ⟨plain, Bool.eq_false_iff.mpr hword, Bool.eq_false_iff.mpr hdigit, hquote⟩ text

/-- A point without a digit behind it is left for the next piece. -/
example : of '1' ['.'] = ⟨.token .literal, ['1'], ['.']⟩ := by decide

end Cut

/-! ### What is given out -/

open Pattern

/-- The token that the patterns determine at the front of a text, behind a token of the given kind:
what they choose, unless it is layout, or an unknown token of what stands astray. -/
inductive Declared (previous : Option Terminal) (text : List Char) : Terminal → List Char → Prop
  | chosen {piece : Piece} {kind : Terminal} {lexeme : List Char}
      (chosen : Chosen text piece lexeme) (isKind : piece.kind? previous = some kind) :
      Declared previous text kind lexeme
  | astray {lexeme : List Char} (unmatched : Unmatched text) (astray : Astray text lexeme) :
      Declared previous text .unknown lexeme

namespace Declared

variable {previous : Option Terminal} {text : List Char} {kind : Terminal} {lexeme : List Char}

theorem unique {other : Terminal} {word : List Char} (declared : Declared previous text kind lexeme)
    (declaredOther : Declared previous text other word) : kind = other ∧ lexeme = word := by
  cases declared with
  | chosen chosen isKind =>
    cases declaredOther with
    | chosen chosenOther isKindOther =>
      obtain ⟨rfl, rfl⟩ := chosen.unique chosenOther
      exact ⟨Option.some.inj (isKind.symm.trans isKindOther), rfl⟩
    | astray unmatched astray => exact absurd unmatched chosen.not_unmatched
  | astray unmatched astray =>
    cases declaredOther with
    | chosen chosen isKind => exact absurd unmatched chosen.not_unmatched
    | astray _ astrayOther => exact ⟨rfl, astray.lexeme_eq.trans astrayOther.lexeme_eq.symm⟩

/-- A lexeme that some pattern matches is the one chosen. -/
theorem exists_chosen {piece : Piece} (declared : Declared previous text kind lexeme)
    (matched : Matches piece lexeme) :
    ∃ piece, Chosen text piece lexeme ∧ piece.kind? previous = some kind := by
  cases declared with
  | chosen chosen isKind => exact ⟨_, chosen, isKind⟩
  | astray unmatched astray => exact absurd matched (unmatched piece lexeme astray.begins)

/-- A spelling tells the kind. -/
theorem of_spelled {piece : Piece} (declared : Declared previous text kind lexeme)
    (spelled : (lexeme, piece) ∈ spellings) : piece.kind? previous = some kind := by
  obtain ⟨other, hchosen, hkind⟩ := declared.exists_chosen (Or.inl spelled)
  rwa [spellings_functional spelled (hchosen.spelled piece spelled)]

/-- A word has its own kind. -/
theorem of_word (declared : Declared previous text kind lexeme) (mem : lexeme ∈ word) :
    kind = wordKind lexeme := by
  have hclass := inClass_word mem
  obtain ⟨piece, hchosen, hkind⟩ := declared.exists_chosen (Or.inr hclass)
  -- a spelling that begins like a word has the kind of the word
  have hspelled : (lexeme, piece) ∈ spellings → piece = .token (wordKind lexeme) := by
    obtain ⟨first, more, rfl, hstart, -⟩ := mem_word.mp mem
    exact fun hspelled => (spellings_word _ hspelled hstart).2
  have hpiece : piece = .token (wordKind lexeme) := by
    rcases hchosen.matched with hmem | hmem
    · exact hspelled hmem
    · rcases wordKind_cases lexeme with hkeyword | ⟨hident, -⟩
      · exact hspelled (hchosen.spelled _ (keywords_spelled _ hkeyword))
      · rw [hident]
        exact hmem.unique hclass
  rw [hpiece] at hkind
  exact (Option.some.inj hkind).symm

theorem unknown_iff (declared : Declared previous text kind lexeme) :
    kind = .unknown ↔ Unmatched text := by
  cases declared with
  | chosen chosen isKind =>
    refine ⟨?_, fun unmatched => absurd unmatched chosen.not_unmatched⟩
    rintro rfl
    exact absurd isKind (chosen.matched.kind?_ne_unknown previous)
  | astray unmatched astray => exact ⟨fun _ => unmatched, fun _ => rfl⟩

/-- Only what stands astray is unknown. -/
theorem astray_of_unknown (declared : Declared previous text .unknown lexeme) :
    Astray text lexeme := by
  have hunmatched := declared.unknown_iff.mp rfl
  cases declared with
  | chosen chosen isKind => exact absurd hunmatched chosen.not_unmatched
  | astray unmatched astray => exact astray

end Declared

/-- What the patterns say of a token that is read in front of a text, behind a token of the given
kind. -/
structure Token.FollowsPatterns (previous : Option Terminal) (text : List Char) (token : Token) :
    Prop where
  declared_iff : ∀ kind lexeme, Declared previous text kind lexeme ↔
    kind = token.kind ∧ lexeme = token.lexeme.toList
  word : token.lexeme.toList ∈ Pattern.word → (token.lexeme.toList, token.kind) ∈ keywords ∨
    (token.kind = .ident ∧ token.lexeme.toList ∉ keywords.map Prod.fst)
  unknown_iff : token.kind = .unknown ↔ Unmatched text
  astray : token.kind = .unknown → Astray text token.lexeme.toList
  plus : token.lexeme = "+" → token.kind = .addOp
  dash : token.lexeme = "-" → token.kind =
    if previous = some .ident ∨ previous = some .literal ∨ previous = some .rightParen then .addOp
    else .minus

theorem Declared.followsPatterns {previous : Option Terminal} {text : List Char} {token : Token}
    (declared : Declared previous text token.kind token.lexeme.toList) :
    token.FollowsPatterns previous text where
  declared_iff kind lexeme := by
    refine ⟨fun other => other.unique declared, ?_⟩
    rintro ⟨rfl, rfl⟩
    exact declared
  word mem := by
    rw [declared.of_word mem]
    exact wordKind_cases _
  unknown_iff := declared.unknown_iff
  astray isUnknown := by
    rw [isUnknown] at declared
    exact declared.astray_of_unknown
  plus isPlus := by
    have hspelled : ("+".toList, Piece.token .addOp) ∈ spellings := by decide
    rw [isPlus] at declared
    exact (Option.some.inj (declared.of_spelled hspelled)).symm
  dash isDash := by
    have hspelled : ("-".toList, Piece.dash) ∈ spellings := by decide
    rw [isDash] at declared
    rw [← dashKind_eq]
    exact (Option.some.inj (declared.of_spelled hspelled)).symm

/-- What is cut off as a token begins with no layout. -/
theorem Cut.IsToken.plain {previous : Option Terminal} {kind : Terminal} {first : Char}
    {text : List Char} (isToken : (Cut.of first text).IsToken previous kind) :
    first ∉ layoutChars := by
  have hlayout : ∀ c ∈ layoutChars, (Cut.of c text).piece.kind? previous = none :=
    forall_mem_layoutChars.mpr ⟨rfl, rfl, rfl, rfl, rfl, rfl⟩
  intro mem
  have hkind := isToken.kind_eq
  rw [hlayout first mem] at hkind
  cases hkind

/-- What is cut off as a token is declared. -/
theorem Cut.IsToken.declared {previous : Option Terminal} {kind : Terminal} {first : Char}
    {text : List Char} (isToken : (Cut.of first text).IsToken previous kind) :
    Declared previous (first :: text) kind (Cut.of first text).lexeme := by
  have hkind := isToken.kind_eq
  rcases Cut.asDeclared_of_plain isToken.plain text with hchosen | ⟨hunmatched, hastray, hpiece⟩
  · exact .chosen hchosen hkind
  · rw [hpiece] at hkind
    obtain rfl := Option.some.inj hkind
    exact .astray hunmatched hastray

namespace Lexer

theorem declared_of_next {lexer next : Lexer} {token : Token} (gives : lexer.next = (token, next))
    (not_end : token.kind ≠ .endOfInput) :
    Declared lexer.previous (token.lexeme.toList ++ next.rest) token.kind token.lexeme.toList := by
  obtain ⟨first, text, htoken, hlexeme, hrest, -⟩ := cut_of_next gives not_end
  rw [hlexeme, hrest, Cut.lexeme_append_rest]
  exact htoken.declared

/-- The kind of the last token, which is the one before if there are no more. -/
theorem lastKind_next {lexer next : Lexer} {token : Token} (gives : lexer.next = (token, next))
    (not_end : token.kind ≠ .endOfInput) (gap : List Char) (words : List Spaced) :
    ((⟨gap, token⟩ :: words).getLast?.map fun before => before.token.kind).or lexer.previous =
      (words.getLast?.map fun before => before.token.kind).or next.previous := by
  obtain ⟨_, _, -, -, -, hprevious⟩ := cut_of_next gives not_end
  rw [hprevious, List.getLast?_cons]
  cases words.getLast? <;> rfl

/-- Every token is the one that the patterns determine behind the token before it. -/
theorem Reads.followsPatterns {lexer : Lexer} {words : List Spaced} {last : List Char}
    (reads : Reads lexer words last) {front : List Spaced} {word : Spaced} {back : List Spaced}
    (split : words = front ++ word :: back) :
    word.token.FollowsPatterns
      ((front.getLast?.map fun before => before.token.kind).or lexer.previous)
      (word.token.lexeme.toList ++ (Spaced.text back ++ last)) := by
  induction reads generalizing front with
  | done layout => cases front <;> cases split
  | @token lexer next gap token words last gives _ layout line_eq same_line intact reads ih =>
    cases front with
    | nil =>
      obtain ⟨rfl, rfl⟩ := List.cons.inj split
      have hdeclared := declared_of_next gives intact.not_end
      rw [reads.rest_eq] at hdeclared
      exact hdeclared.followsPatterns
    | cons before front =>
      obtain ⟨rfl, hwords⟩ := List.cons.inj split
      rw [lastKind_next gives intact.not_end]
      exact ih hwords

end Lexer

/-- Every token of a text is the one that the patterns determine where it stands: behind the
layout, in front of all that follows, after the token before it. -/
theorem tokenize_longest_match (text : String) :
    ∃ (words : List Spaced) (last : List Char),
      text.toList = Spaced.text words ++ last ∧
      words.map Spaced.token = tokenize text ∧
      (∀ word ∈ words, Layout word.gap) ∧ FinalLayout last ∧
      ∀ front word back, words = front ++ word :: back →
        word.token.FollowsPatterns (front.getLast?.map fun before => before.token.kind)
          (word.token.lexeme.toList ++ (Spaced.text back ++ last)) := by
  obtain ⟨words, last, hreads⟩ := Lexer.exists_reads (Lexer.ofString text)
  obtain ⟨hgaps, hlast⟩ := hreads.layouts
  refine ⟨words, last, hreads.rest_eq, hreads.tokens_eq.symm, hgaps, hlast, ?_⟩
  intro front word back split
  have hfollows := hreads.followsPatterns split
  rwa [show (Lexer.ofString text).previous = none from rfl, Option.or_none] at hfollows

end ShiftReduce
