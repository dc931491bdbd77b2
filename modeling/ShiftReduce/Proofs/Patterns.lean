import ShiftReduce.Lexer.Pattern
import ShiftReduce.Proofs.Pieces

/-!
What the patterns match. The first character of a text tells which patterns can match there at all:
words and keywords, numbers, quoted texts, or spellings of one or two characters. No two classes
have a text in common and no text is the spelling of two pieces, so at most one piece is chosen; and
what stands astray is told by the text.
-/

open Computability

namespace ShiftReduce

namespace Pattern

/-! ### What the classes hold -/

theorem isUpper_eq : between 'A' 'Z' = Char.isUpper := by
  funext c
  exact (Bool.decide_and _ _).symm

theorem isWordStart_eq :
    (fun c => between 'A' 'Z' c || between 'a' 'z' c || c == '_') = isWordStart := by
  rw [isUpper_eq]
  rfl

theorem isWordPart_eq :
    (fun c => between 'A' 'Z' c || between 'a' 'z' c || between '0' '9' c || c == '_') =
      isWordPart := by
  rw [isUpper_eq]
  rfl

theorem mem_word {text : List Char} : text ∈ word ↔ ∃ first rest, text = first :: rest ∧
    isWordStart first = true ∧ ∀ c ∈ rest, isWordPart c = true := by
  rw [word, isWordStart_eq, isWordPart_eq, mem_oneOf_mul_kstar]

theorem mem_digits {text : List Char} :
    text ∈ oneOf (between '0' '9') * (oneOf (between '0' '9'))∗ ↔ IsNumber text := by
  rw [mem_oneOf_mul_kstar]
  constructor
  · rintro ⟨first, rest, rfl, hfirst, hrest⟩
    exact ⟨List.cons_ne_nil _ _, List.forall_mem_cons.mpr ⟨hfirst, hrest⟩⟩
  · rintro ⟨hne, hall⟩
    obtain ⟨first, rest, rfl⟩ := List.exists_cons_of_ne_nil hne
    exact ⟨first, rest, rfl, List.forall_mem_cons.mp hall⟩

theorem mem_number {text : List Char} : text ∈ number ↔ IsNumber text ∨
    ∃ digits decimals, text = digits ++ '.' :: decimals ∧ IsNumber digits ∧ IsNumber decimals := by
  rw [number, Language.mem_mul]
  constructor
  · rintro ⟨digits, hdigits, _, rfl | ⟨_, rfl, decimals, hdecimals, rfl⟩, rfl⟩
    · rw [List.append_nil]
      exact Or.inl (mem_digits.mp hdigits)
    · exact Or.inr ⟨digits, decimals, rfl, mem_digits.mp hdigits, mem_digits.mp hdecimals⟩
  · rintro (hdigits | ⟨digits, decimals, rfl, hdigits, hdecimals⟩)
    · exact ⟨text, mem_digits.mpr hdigits, [], Or.inl rfl, List.append_nil _⟩
    · exact ⟨digits, mem_digits.mpr hdigits, '.' :: decimals,
        Or.inr ⟨_, rfl, decimals, mem_digits.mpr hdecimals, rfl⟩, rfl⟩

theorem mem_quoted {text : List Char} : text ∈ quoted ↔
    ∃ body, text = '"' :: body ++ ['"'] ∧ ∀ c ∈ body, Cut.isQuotable c = true := by
  have hclass : (fun c : Char => decide (c ≠ '"' ∧ c ≠ '\n')) = Cut.isQuotable := by
    funext c
    rw [Bool.decide_and, decide_not, decide_not]
    rfl
  rw [quoted, hclass, Language.mem_mul]
  constructor
  · rintro ⟨_, ⟨_, rfl, body, hbody, rfl⟩, _, rfl, rfl⟩
    exact ⟨body, rfl, mem_oneOf_kstar.mp hbody⟩
  · rintro ⟨body, rfl, hbody⟩
    exact ⟨'"' :: body, ⟨_, rfl, body, mem_oneOf_kstar.mpr hbody, rfl⟩, _, rfl, rfl⟩

theorem head_of_mem_layout {text : List Char} (mem : text ∈ layout) :
    ∃ first rest, text = first :: rest ∧ first ∈ layoutChars := by
  rcases mem with hblanks | ⟨_, rfl, body, -, rfl⟩
  · obtain ⟨first, rest, rfl, hfirst, -⟩ := mem_oneOf_mul_kstar.mp hblanks
    exact ⟨first, rest, rfl, List.mem_append_left ['\n', '#'] (of_decide_eq_true hfirst)⟩
  · exact ⟨'#', body, rfl, by decide⟩

theorem inClass_iff {piece : Piece} {lexeme : List Char} : InClass piece lexeme ↔
    (piece = .layout ∧ lexeme ∈ layout) ∨
    (piece = .token .literal ∧ (lexeme ∈ number ∨ lexeme ∈ quoted)) ∨
    (piece = .token .ident ∧ lexeme ∈ word) := by
  simp only [InClass, classes, List.mem_cons, List.not_mem_nil, or_false, Prod.mk.injEq]
  constructor
  · rintro ⟨_, ⟨rfl, rfl⟩ | ⟨rfl, rfl⟩ | ⟨rfl, rfl⟩ | ⟨rfl, rfl⟩, hmem⟩
    · exact Or.inl ⟨rfl, hmem⟩
    · exact Or.inr (Or.inl ⟨rfl, Or.inl hmem⟩)
    · exact Or.inr (Or.inl ⟨rfl, Or.inr hmem⟩)
    · exact Or.inr (Or.inr ⟨rfl, hmem⟩)
  · rintro (⟨rfl, hmem⟩ | ⟨rfl, hmem | hmem⟩ | ⟨rfl, hmem⟩)
    · exact ⟨_, Or.inl ⟨rfl, rfl⟩, hmem⟩
    · exact ⟨_, Or.inr (Or.inl ⟨rfl, rfl⟩), hmem⟩
    · exact ⟨_, Or.inr (Or.inr (Or.inl ⟨rfl, rfl⟩)), hmem⟩
    · exact ⟨_, Or.inr (Or.inr (Or.inr ⟨rfl, rfl⟩)), hmem⟩

theorem inClass_number {lexeme : List Char} (mem : lexeme ∈ number) :
    InClass (.token .literal) lexeme :=
  inClass_iff.mpr (Or.inr (Or.inl ⟨rfl, Or.inl mem⟩))

theorem inClass_quoted {lexeme : List Char} (mem : lexeme ∈ quoted) :
    InClass (.token .literal) lexeme :=
  inClass_iff.mpr (Or.inr (Or.inl ⟨rfl, Or.inr mem⟩))

theorem inClass_word {lexeme : List Char} (mem : lexeme ∈ word) : InClass (.token .ident) lexeme :=
  inClass_iff.mpr (Or.inr (Or.inr ⟨rfl, mem⟩))

/-! ### What can match, by the first character -/

theorem spellings_ne_nil : ∀ entry ∈ spellings, entry.1 ≠ [] := by decide

/-- No text is the spelling of two pieces. -/
theorem spellings_functional {lexeme : List Char} {piece other : Piece}
    (mem : (lexeme, piece) ∈ spellings) (memOther : (lexeme, other) ∈ spellings) :
    piece = other := by
  have hsame : ∀ entry ∈ spellings, ∀ other ∈ spellings, entry.1 = other.1 →
      entry.2 = other.2 := by decide
  exact hsame _ mem _ memOther rfl

theorem spellings_word : ∀ entry ∈ spellings, entry.1.head?.any isWordStart = true →
    entry.1.all isWordPart = true ∧ entry.2 = .token (wordKind entry.1) := by
  decide

theorem spellings_known : ∀ entry ∈ spellings, entry.2 ≠ .token .unknown := by decide

theorem spellings_not_digit : ∀ entry ∈ spellings, entry.1.head?.any Char.isDigit = false := by
  decide

theorem spellings_not_quote : ∀ entry ∈ spellings, entry.1.head? ≠ some '"' := by decide

theorem keywords_spelled : ∀ entry ∈ keywords, (entry.1, .token entry.2) ∈ spellings := by decide

theorem longOperators_spelled : ∀ entry ∈ longOperators,
    (entry.1, .token entry.2) ∈ spellings := by
  decide

theorem longOperators_length : ∀ entry ∈ longOperators, entry.1.length = 2 := by decide

theorem shortOperators_spelled : ∀ entry ∈ shortOperators,
    ([entry.1], .token entry.2) ∈ spellings := by
  decide

/-- A spelling that is neither a newline nor a word is an operator. -/
theorem spellings_operator : ∀ entry ∈ spellings, entry.1.head? ≠ some '\n' →
    entry.1.head?.any isWordStart = false →
    (∃ pair ∈ longOperators, entry = (pair.1, .token pair.2)) ∨
      (∃ pair ∈ shortOperators, entry = ([pair.1], .token pair.2)) ∨ entry = (['-'], .dash) := by
  decide

variable {piece : Piece} {first : Char} {more text : List Char}

/-- What a class matches, told by its first character. -/
theorem InClass.head_cases {lexeme : List Char} (mem : InClass piece lexeme) :
    ∃ first more, lexeme = first :: more ∧
      ((piece = .layout ∧ first ∈ layoutChars) ∨
        (piece = .token .literal ∧ first.isDigit = true ∧ lexeme ∈ number) ∨
        (piece = .token .literal ∧ first = '"' ∧ lexeme ∈ quoted) ∨
        (piece = .token .ident ∧ isWordStart first = true ∧ ∀ c ∈ more, isWordPart c = true)) := by
  rcases inClass_iff.mp mem with ⟨rfl, hmem⟩ | ⟨rfl, hmem | hmem⟩ | ⟨rfl, hmem⟩
  · obtain ⟨first, more, rfl, hfirst⟩ := head_of_mem_layout hmem
    exact ⟨first, more, rfl, Or.inl ⟨rfl, hfirst⟩⟩
  · obtain ⟨first, more, rfl, hfirst⟩ : ∃ first more, lexeme = first :: more ∧
        first.isDigit = true := by
      rcases mem_number.mp hmem with ⟨hne, hall⟩ | ⟨digits, decimals, rfl, ⟨hne, hall⟩, -⟩
      · obtain ⟨first, more, rfl⟩ := List.exists_cons_of_ne_nil hne
        exact ⟨first, more, rfl, hall first List.mem_cons_self⟩
      · obtain ⟨first, more, rfl⟩ := List.exists_cons_of_ne_nil hne
        exact ⟨first, _, rfl, hall first List.mem_cons_self⟩
    exact ⟨first, more, rfl, Or.inr (Or.inl ⟨rfl, hfirst, hmem⟩)⟩
  · obtain ⟨body, rfl, -⟩ := mem_quoted.mp hmem
    exact ⟨'"', _, rfl, Or.inr (Or.inr (Or.inl ⟨rfl, rfl, hmem⟩))⟩
  · obtain ⟨first, more, rfl, hfirst, hmore⟩ := mem_word.mp hmem
    exact ⟨first, more, rfl, Or.inr (Or.inr (Or.inr ⟨rfl, hfirst, hmore⟩))⟩

theorem InClass.cons_cases (mem : InClass piece (first :: more)) :
    (piece = .layout ∧ first ∈ layoutChars) ∨
    (piece = .token .literal ∧ first.isDigit = true ∧ first :: more ∈ number) ∨
    (piece = .token .literal ∧ first = '"' ∧ first :: more ∈ quoted) ∨
    (piece = .token .ident ∧ isWordStart first = true ∧ ∀ c ∈ more, isWordPart c = true) := by
  obtain ⟨_, _, hcons, hcases⟩ := mem.head_cases
  obtain ⟨rfl, rfl⟩ := List.cons.inj hcons
  exact hcases

/-- What matches at the front of a text begins with its first character. -/
theorem Matches.exists_cons {front : List Char} (h : Matches piece front)
    (begins : front <+: first :: text) : ∃ more, front = first :: more ∧ more <+: text := by
  have hne : front ≠ [] := by
    rcases h with hspelled | hclass
    · exact spellings_ne_nil _ hspelled
    · obtain ⟨_, _, rfl, -⟩ := hclass.head_cases
      exact List.cons_ne_nil _ _
  obtain ⟨c, more, rfl⟩ := List.exists_cons_of_ne_nil hne
  obtain ⟨rfl, hmore⟩ := List.cons_prefix_cons.mp begins
  exact ⟨more, rfl, hmore⟩

theorem Matches.of_word (start : isWordStart first = true) (h : Matches piece (first :: more)) :
    ∀ c ∈ more, isWordPart c = true := by
  rcases h with hspelled | hclass
  · intro c mem
    exact List.all_eq_true.mp (spellings_word _ hspelled start).1 c (List.mem_cons_of_mem _ mem)
  · rcases hclass.cons_cases with ⟨-, hfirst⟩ | ⟨-, hfirst, -⟩ | ⟨-, hfirst, -⟩ | ⟨-, -, hmore⟩
    · exact absurd hfirst (not_mem_layoutChars isWordStart_layout start)
    · rw [isWordStart_of_isDigit hfirst] at start
      cases start
    · subst hfirst
      cases start
    · exact hmore

theorem Matches.of_digit (digit : first.isDigit = true) (h : Matches piece (first :: more)) :
    first :: more ∈ number := by
  rcases h with hspelled | hclass
  · exact absurd digit (Bool.eq_false_iff.mp (spellings_not_digit _ hspelled))
  · rcases hclass.cons_cases with ⟨-, hfirst⟩ | ⟨-, -, hmem⟩ | ⟨-, hfirst, -⟩ | ⟨-, hfirst, -⟩
    · exact absurd hfirst (not_mem_layoutChars isDigit_layout digit)
    · exact hmem
    · subst hfirst
      cases digit
    · rw [isWordStart_of_isDigit digit] at hfirst
      cases hfirst

theorem Matches.of_quote (h : Matches piece ('"' :: more)) : '"' :: more ∈ quoted := by
  rcases h with hspelled | hclass
  · exact absurd rfl (spellings_not_quote _ hspelled)
  · rcases hclass.cons_cases with ⟨-, hfirst⟩ | ⟨-, hfirst, -⟩ | ⟨-, -, hmem⟩ | ⟨-, hfirst, -⟩
    · exact absurd hfirst (by decide)
    · cases hfirst
    · exact hmem
    · cases hfirst

/-- The first characters of layout, words, numbers and quoted texts are no others. -/
structure IsOperatorStart (first : Char) : Prop where
  not_layout : first ∉ layoutChars
  not_word : isWordStart first = false
  not_digit : first.isDigit = false
  not_quote : first ≠ '"'

theorem Matches.of_operator (start : IsOperatorStart first) (h : Matches piece (first :: more)) :
    (∃ second kind, more = [second] ∧ ([first, second], kind) ∈ longOperators) ∨
      more = [] ∧ ((∃ kind, (first, kind) ∈ shortOperators) ∨ first = '-') := by
  rcases h with hspelled | hclass
  · have hnewline : (first :: more).head? ≠ some '\n' := by
      rintro hfirst
      obtain rfl := Option.some.inj hfirst
      exact start.not_layout (by decide)
    obtain ⟨⟨_, kind⟩, hlong, heq⟩ | ⟨⟨_, kind⟩, hshort, heq⟩ | heq :=
      spellings_operator _ hspelled hnewline start.not_word
    all_goals obtain ⟨hlexeme, -⟩ := Prod.mk.inj heq
    · subst hlexeme
      obtain ⟨second, rfl⟩ := List.length_eq_one_iff.mp
        (Nat.succ.inj (longOperators_length _ hlong))
      exact Or.inl ⟨second, kind, rfl, hlong⟩
    · obtain ⟨rfl, rfl⟩ := List.cons.inj hlexeme
      exact Or.inr ⟨rfl, Or.inl ⟨kind, hshort⟩⟩
    · obtain ⟨rfl, rfl⟩ := List.cons.inj hlexeme
      exact Or.inr ⟨rfl, Or.inr rfl⟩
  · rcases hclass.cons_cases with ⟨-, hfirst⟩ | ⟨-, hfirst, -⟩ | ⟨-, hfirst, -⟩ | ⟨-, hfirst, -⟩
    · exact absurd hfirst start.not_layout
    · exact absurd hfirst (Bool.eq_false_iff.mp start.not_digit)
    · exact absurd hfirst start.not_quote
    · exact absurd hfirst (Bool.eq_false_iff.mp start.not_word)

/-! ### At most one choice -/

/-- The first character tells which class matches. -/
theorem InClass.piece_eq (mem : InClass piece (first :: more)) :
    piece = if first ∈ layoutChars then .layout
      else if isWordStart first then .token .ident else .token .literal := by
  rcases mem.cons_cases with ⟨rfl, hfirst⟩ | ⟨rfl, hfirst, -⟩ | ⟨rfl, hfirst, -⟩ | ⟨rfl, hfirst, -⟩
  · rw [if_pos hfirst]
  · rw [if_neg (not_mem_layoutChars isDigit_layout hfirst), isWordStart_of_isDigit hfirst,
      if_neg Bool.false_ne_true]
  · subst hfirst
    rfl
  · rw [if_neg (not_mem_layoutChars isWordStart_layout hfirst), if_pos hfirst]

/-- No two classes have a text in common. -/
theorem InClass.unique {other : Piece} {lexeme : List Char} (mem : InClass piece lexeme)
    (memOther : InClass other lexeme) : piece = other := by
  obtain ⟨first, more, rfl, -⟩ := mem.head_cases
  rw [mem.piece_eq, memOther.piece_eq]

theorem Chosen.unique {other : Piece} {lexeme word : List Char} (chosen : Chosen text piece lexeme)
    (chosenOther : Chosen text other word) : piece = other ∧ lexeme = word := by
  have hlength : lexeme.length = word.length :=
    Nat.le_antisymm (chosenOther.longest _ _ chosen.begins chosen.matched)
      (chosen.longest _ _ chosenOther.begins chosenOther.matched)
  obtain rfl : lexeme = word :=
    (List.prefix_of_prefix_length_le chosen.begins chosenOther.begins hlength.le).eq_of_length
      hlength
  refine ⟨?_, rfl⟩
  rcases chosen.matched with hspelled | hclass
  · exact spellings_functional hspelled (chosenOther.spelled piece hspelled)
  · rcases chosenOther.matched with hspelled | hclassOther
    · exact spellings_functional (chosen.spelled other hspelled) hspelled
    · exact hclass.unique hclassOther

theorem Chosen.not_unmatched {lexeme : List Char} (chosen : Chosen text piece lexeme) :
    ¬Unmatched text :=
  fun unmatched => unmatched _ _ chosen.begins chosen.matched

/-- No pattern stands for unknown tokens. -/
theorem Matches.kind?_ne_unknown {lexeme : List Char} (h : Matches piece lexeme)
    (previous : Option Terminal) : piece.kind? previous ≠ some .unknown := by
  have hpiece : piece ≠ .token .unknown := by
    rcases h with hspelled | hclass
    · exact spellings_known _ hspelled
    · rintro rfl
      rcases inClass_iff.mp hclass with ⟨h, -⟩ | ⟨h, -⟩ | ⟨h, -⟩ <;> cases h
  intro hkind
  cases piece with
  | layout => cases hkind
  | newline => cases hkind
  | dash =>
    have hdash := dashKind_eq previous
    rw [Option.some.inj hkind] at hdash
    split at hdash <;> cases hdash
  | token kind => exact hpiece (congrArg Piece.token (Option.some.inj hkind))

theorem Astray.begins {lexeme : List Char} (astray : Astray text lexeme) : lexeme <+: text := by
  cases astray with
  | quote isLine stops => exact List.prefix_append _ _
  | character plain => exact ⟨_, rfl⟩

/-- What stands astray is told by the text. -/
theorem Astray.lexeme_eq {lexeme : List Char} (astray : Astray text lexeme) : lexeme =
    if text.head? = some '"' then '"' :: text.tail.takeWhile (· != '\n') else text.take 1 := by
  cases astray with
  | @quote body rest isLine stops =>
    have hrest : ∀ c ∈ rest.head?, (c != '\n') = false := fun c mem => by
      rw [stops c mem]
      rfl
    rw [List.cons_append, List.head?_cons, if_pos rfl, List.tail_cons,
      (span_stops rest isLine.all_ne hrest).1]
  | @character c rest plain =>
    rw [List.head?_cons, if_neg fun h => plain (Option.some.inj h)]
    rfl

end Pattern

end ShiftReduce
