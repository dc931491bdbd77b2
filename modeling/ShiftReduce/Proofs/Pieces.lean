import ShiftReduce.Lexer.Cut
import ShiftReduce.Lexer.Lexeme

/-!
What is cut off the front of a text. A character with which layout can begin is skipped with what
belongs to it; any other begins a token, whose lexeme holds no newline and is the spelling of its
kind, if that has one.
-/

namespace ShiftReduce

/-! ### Characters -/

/-- What layout can begin with. -/
def layoutChars : List Char := [' ', '\t', '\r', '\x0c', '\n', '#']

theorem mem_layoutChars {c : Char} :
    c ∈ layoutChars ↔ isBlank c = true ∨ c = '\n' ∨ c = '#' := by
  simp [layoutChars, isBlank, or_assoc]

theorem forall_mem_layoutChars {p : Char → Prop} :
    (∀ c ∈ layoutChars, p c) ↔ p ' ' ∧ p '\t' ∧ p '\r' ∧ p '\x0c' ∧ p '\n' ∧ p '#' := by
  simp [layoutChars]

theorem isWordStart_layout : ∀ c ∈ layoutChars, isWordStart c = false :=
  forall_mem_layoutChars.mpr (by decide)

theorem isWordPart_layout : ∀ c ∈ layoutChars, isWordPart c = false :=
  forall_mem_layoutChars.mpr (by decide)

theorem isDigit_layout : ∀ c ∈ layoutChars, c.isDigit = false :=
  forall_mem_layoutChars.mpr (by decide)

theorem longOperators_layout : ∀ entry ∈ longOperators, ∀ c ∈ layoutChars, c ∉ entry.1 := by
  simp only [forall_mem_layoutChars]
  decide

/-- A class that has no character of layout. -/
theorem not_mem_layoutChars {p : Char → Bool} (plain : ∀ c ∈ layoutChars, p c = false) {c : Char}
    (h : p c = true) : c ∉ layoutChars := by
  intro mem
  rw [plain c mem] at h
  cases h

theorem isWordStart_of_isDigit {c : Char} (digit : c.isDigit = true) : isWordStart c = false := by
  have hbounds : 48 ≤ c.toNat ∧ c.toNat ≤ 57 := by
    simpa [Char.isDigit, UInt32.le_iff_toNat_le] using digit
  have hline : c ≠ '_' := by
    rintro rfl
    cases digit
  have hletter : c.isAlpha = false := by
    change (decide (c.val ≥ 65 ∧ c.val ≤ 90) ||
      (decide (c.val ≥ 97) && decide (c.val ≤ 122))) = false
    simp [UInt32.le_iff_toNat_le]
    omega
  rw [isWordStart, hletter, Bool.false_or, beq_eq_false_iff_ne]
  exact hline

theorem isLine_cons {c : Char} {text : List Char} :
    IsLine (c :: text) ↔ c ≠ '\n' ∧ IsLine text := by
  simp [IsLine, eq_comm]

theorem isLine_append {front back : List Char} :
    IsLine (front ++ back) ↔ IsLine front ∧ IsLine back := by
  simp [IsLine]

theorem IsLine.all_ne {text : List Char} (isLine : IsLine text) :
    ∀ c ∈ text, (c != '\n') = true :=
  fun _ mem => bne_iff_ne.mpr fun h => isLine (h ▸ mem)

theorem mem_takeWhile {p : Char → Bool} {text : List Char} :
    ∀ c ∈ text.takeWhile p, p c = true :=
  fun _ mem => List.all_eq_true.mp List.all_takeWhile _ mem

theorem isLine_takeWhile {p : Char → Bool} (plain : p '\n' = false) (text : List Char) :
    IsLine (text.takeWhile p) := by
  intro mem
  have hnewline := mem_takeWhile _ mem
  rw [plain] at hnewline
  cases hnewline

/-- The characters of a class end where one stands that is not in it. -/
theorem span_stops {p : Char → Bool} {front : List Char} (behind : List Char)
    (all : ∀ c ∈ front, p c = true) (stops : ∀ c ∈ behind.head?, p c = false) :
    (front ++ behind).takeWhile p = front ∧ (front ++ behind).dropWhile p = behind := by
  rw [List.takeWhile_append_of_pos all, List.dropWhile_append_of_pos all]
  cases behind with
  | nil => simp
  | cons c behind => simp [stops c rfl]

theorem span_stops_at {p : Char → Bool} {front : List Char} {c : Char} (behind : List Char)
    (all : ∀ c ∈ front, p c = true) (stops : p c = false) :
    (front ++ c :: behind).takeWhile p = front ∧ (front ++ c :: behind).dropWhile p = c :: behind :=
  span_stops (c :: behind) all fun _ mem => Option.some.inj mem ▸ stops

/-- A beginning of a text that lies in a class is no longer than the class reaches. -/
theorem length_le_takeWhile {p : Char → Bool} {front text : List Char} (begins : front <+: text)
    (all : ∀ c ∈ front, p c = true) : front.length ≤ (text.takeWhile p).length := by
  obtain ⟨behind, rfl⟩ := begins
  rw [List.takeWhile_append_of_pos all, List.length_append]
  exact Nat.le_add_right _ _

theorem mem_of_lookup {α β : Type} [BEq α] [LawfulBEq α] {entries : List (α × β)} {key : α}
    {value : β} (h : entries.lookup key = some value) : (key, value) ∈ entries := by
  obtain ⟨front, back, rfl, -⟩ := List.lookup_eq_some_iff.mp h
  exact List.mem_append_right _ List.mem_cons_self

theorem not_mem_of_lookup {α β : Type} [BEq α] [LawfulBEq α] {entries : List (α × β)} {key : α}
    (h : entries.lookup key = none) (value : β) : (key, value) ∉ entries := by
  intro mem
  have hdiffers := List.lookup_eq_none_iff.mp h _ mem
  rw [bne_self_eq_false] at hdiffers
  cases hdiffers

/-! ### Tokens -/

/-- A word has a keyword's kind exactly if it is that keyword as a whole. -/
theorem wordKind_cases (word : List Char) : (word, wordKind word) ∈ keywords ∨
    (wordKind word = .ident ∧ word ∉ keywords.map Prod.fst) := by
  rw [wordKind]
  cases hlookup : keywords.lookup word with
  | some kind => exact Or.inl (mem_of_lookup hlookup)
  | none =>
    refine Or.inr ⟨rfl, fun mem => ?_⟩
    obtain ⟨⟨_, kind⟩, hmem, rfl⟩ := List.mem_map.mp mem
    exact not_mem_of_lookup hlookup kind hmem

/-- A minus sign subtracts behind a name, a literal and a closing parenthesis. -/
theorem dashKind_eq (previous : Option Terminal) : dashKind previous =
    if previous = some .ident ∨ previous = some .literal ∨ previous = some .rightParen then .addOp
    else .minus := by
  rcases previous with _ | kind
  · rfl
  · cases kind <;> rfl

/-- The kind of token that a piece is behind a token of the given kind; layout is no token. -/
def Piece.kind? (previous : Option Terminal) : Piece → Option Terminal
  | .layout | .newline => none
  | .dash => some (dashKind previous)
  | .token kind => some kind

namespace Cut

/-- A token of the given kind: its lexeme lies on one line, and is the kind's spelling where tokens
of the kind carry no text. -/
structure IsToken (previous : Option Terminal) (kind : Terminal) (cut : Cut) : Prop where
  kind_eq : cut.piece.kind? previous = some kind
  spelled : kind.carriesText = true ∨ kind.spelling = some (String.ofList cut.lexeme)
  isLine : IsLine cut.lexeme

/-- Where no layout begins the class of the first character decides. -/
theorem of_plain {first : Char} (plain : first ∉ layoutChars) (text : List Char) :
    of first text =
      if isWordStart first then word first text
      else if first.isDigit then number first text
      else if first = '"' then quoted text
      else operator first text := by
  rw [mem_layoutChars, not_or, not_or] at plain
  rw [of, if_neg plain.2.1, if_neg plain.1, if_neg plain.2.2]

theorem of_word {first : Char} (start : isWordStart first = true) (text : List Char) :
    of first text = word first text := by
  rw [of_plain (not_mem_layoutChars isWordStart_layout start), if_pos start]

theorem of_digit {first : Char} (digit : first.isDigit = true) (text : List Char) :
    of first text = number first text := by
  rw [of_plain (not_mem_layoutChars isDigit_layout digit), isWordStart_of_isDigit digit,
    if_neg Bool.false_ne_true, if_pos digit]

variable {previous : Option Terminal}

theorem isToken_word {first : Char} (start : isWordStart first = true) (text : List Char) :
    ∃ kind, IsToken previous kind (word first text) := by
  refine ⟨_, rfl, ?_, ?_⟩
  · rcases wordKind_cases (first :: text.takeWhile isWordPart) with hkeyword | ⟨hident, -⟩
    · exact spelling_of_mem_keywords _ hkeyword
    · rw [hident]
      exact Or.inl rfl
  · refine isLine_cons.mpr ⟨?_, isLine_takeWhile rfl text⟩
    rintro rfl
    cases start

theorem isToken_number {first : Char} (digit : first.isDigit = true) (text : List Char) :
    ∃ kind, IsToken previous kind (number first text) := by
  have hwhole : IsLine (first :: text.takeWhile Char.isDigit) := by
    refine isLine_cons.mpr ⟨?_, isLine_takeWhile rfl text⟩
    rintro rfl
    cases digit
  rw [number]
  split
  · rename_i point rest eq
    split
    · rename_i hpoint
      refine ⟨_, rfl, Or.inl rfl, ?_⟩
      have hdecimals : IsLine (point :: rest.takeWhile Char.isDigit) := by
        refine isLine_cons.mpr ⟨?_, isLine_takeWhile rfl rest⟩
        rintro rfl
        cases hpoint
      exact isLine_append.mpr ⟨hwhole, isLine_cons.mpr ⟨by decide, hdecimals⟩⟩
    · exact ⟨_, rfl, Or.inl rfl, hwhole⟩
  · exact ⟨_, rfl, Or.inl rfl, hwhole⟩

theorem isToken_quoted (text : List Char) : ∃ kind, IsToken previous kind (quoted text) := by
  have hopen : IsLine ('"' :: text.takeWhile isQuotable) :=
    isLine_cons.mpr ⟨by decide, isLine_takeWhile rfl text⟩
  rw [quoted]
  split
  · exact ⟨_, rfl, Or.inl rfl, isLine_append.mpr ⟨hopen, by simp [IsLine]⟩⟩
  · exact ⟨_, rfl, Or.inl rfl, hopen⟩

theorem isToken_short {first : Char} (plain : first ∉ layoutChars) (text : List Char) :
    ∃ kind, IsToken previous kind (short first text) := by
  have hline : IsLine [first] := by
    rw [IsLine, List.mem_singleton]
    rintro rfl
    exact plain (by decide)
  rw [short]
  split
  · rename_i hdash
    subst hdash
    refine ⟨_, rfl, ?_, hline⟩
    rw [dashKind]
    split
    · exact Or.inl rfl
    · exact Or.inr rfl
  · refine ⟨_, rfl, ?_, hline⟩
    cases hlookup : shortOperators.lookup first with
    | none => exact Or.inl rfl
    | some kind => exact spelling_of_mem_shortOperators _ (mem_of_lookup hlookup)

theorem isToken_operator {first : Char} (plain : first ∉ layoutChars) (text : List Char) :
    ∃ kind, IsToken previous kind (operator first text) := by
  cases text with
  | nil => exact isToken_short plain []
  | cons second rest =>
    rw [operator]
    split
    · rename_i kind hlookup
      have hmem := mem_of_lookup hlookup
      exact ⟨_, rfl, spelling_of_mem_longOperators _ hmem,
        longOperators_layout _ hmem '\n' (by decide)⟩
    · exact isToken_short plain _

/-- Where no layout begins a token does. -/
theorem exists_isToken (previous : Option Terminal) {first : Char} (plain : first ∉ layoutChars)
    (text : List Char) : ∃ kind, IsToken previous kind (of first text) := by
  rw [of_plain plain]
  split
  · exact isToken_word ‹_› text
  · split
    · exact isToken_number ‹_› text
    · split
      · exact isToken_quoted text
      · exact isToken_operator plain text

end Cut

end ShiftReduce
