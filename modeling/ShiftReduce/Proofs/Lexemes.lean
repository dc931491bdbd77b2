import ShiftReduce.Proofs.Pieces

/-!
Lexemes in front of layout. Whatever the kind, a lexeme with layout or nothing behind it is cut off
whole: no character with which layout begins goes on with a word, a number or an operator, and the
quotes of a text are its own. A dash is cut off as the kind that fits the token before it.
-/

namespace ShiftReduce

/-- Whether a token of the kind can stand where an operand has just ended, or has not. -/
def Terminal.fits (ended : Bool) : Terminal → Bool
  | .addOp => ended
  | .minus => !ended
  | _ => true

theorem dashKind_of_fits {previous : Option Terminal} {kind : Terminal}
    (dash : kind = .addOp ∨ kind = .minus)
    (fits : kind.fits (previous.any endsOperand) = true) : dashKind previous = kind := by
  rw [dashKind]
  rcases dash with rfl | rfl
  · exact if_pos fits
  · rw [if_neg]
    simpa [Terminal.fits] using fits

/-- A text that could be a name, or a keyword. -/
def IsWord (text : List Char) : Prop :=
  text.head?.any isWordStart = true ∧ text.all isWordPart = true
  deriving Decidable

namespace Cut

/-- With layout behind it the lexeme is cut off whole, as a token of the kind. -/
def TakesWhole (previous : Option Terminal) (kind : Terminal) (lexeme : List Char) : Prop :=
  ∀ behind : List Char, (∀ c ∈ behind.head?, c ∈ layoutChars) →
    ∃ first text piece, lexeme ++ behind = first :: text ∧ first ∉ layoutChars ∧
      of first text = ⟨piece, lexeme, behind⟩ ∧ piece.kind? previous = some kind

variable {previous : Option Terminal}

theorem takesWhole_word {text : List Char} (isWord : IsWord text) :
    TakesWhole previous (wordKind text) text := by
  intro behind opens
  obtain ⟨hstart, hall⟩ := isWord
  cases text with
  | nil => cases hstart
  | cons first text =>
    have hstart : isWordStart first = true := hstart
    have hrest : ∀ c ∈ text, isWordPart c = true := fun c mem =>
      List.all_eq_true.mp hall c (List.mem_cons_of_mem _ mem)
    obtain ⟨htake, hdrop⟩ := span_stops behind hrest fun c mem => isWordPart_layout c (opens c mem)
    refine ⟨first, text ++ behind, .token (wordKind (first :: text)), rfl,
      not_mem_layoutChars isWordStart_layout hstart, ?_, rfl⟩
    rw [of_word hstart, word, htake, hdrop]

theorem takesWhole_long {text : List Char} {kind : Terminal} (mem : (text, kind) ∈ longOperators) :
    TakesWhole previous kind text := by
  intro behind _
  simp only [longOperators, List.mem_cons, Prod.mk.injEq, List.not_mem_nil, or_false] at mem
  rcases mem with ⟨rfl, rfl⟩ | ⟨rfl, rfl⟩ | ⟨rfl, rfl⟩ | ⟨rfl, rfl⟩ | ⟨rfl, rfl⟩ | ⟨rfl, rfl⟩ |
    ⟨rfl, rfl⟩
  all_goals exact ⟨_, _, _, rfl, by decide, rfl, rfl⟩

/-- No operator of two characters has layout in second place. -/
theorem operator_of_opens {first : Char} {behind : List Char}
    (opens : ∀ c ∈ behind.head?, c ∈ layoutChars) : operator first behind = short first behind := by
  cases behind with
  | nil => rfl
  | cons second rest =>
    rw [operator]
    split
    · rename_i kind hlookup
      refine absurd ?_ (longOperators_layout _ (mem_of_lookup hlookup) second (opens second rfl))
      exact List.mem_cons_of_mem _ (List.mem_singleton_self _)
    · rfl

theorem takesWhole_short {c : Char} {kind : Terminal} (mem : (c, kind) ∈ shortOperators) :
    TakesWhole previous kind [c] := by
  intro behind opens
  refine ⟨c, behind, .token kind, rfl, ?_⟩
  simp only [shortOperators, List.mem_cons, Prod.mk.injEq, List.not_mem_nil, or_false] at mem
  rcases mem with ⟨rfl, rfl⟩ | ⟨rfl, rfl⟩ | ⟨rfl, rfl⟩ | ⟨rfl, rfl⟩ | ⟨rfl, rfl⟩ | ⟨rfl, rfl⟩ |
    ⟨rfl, rfl⟩ | ⟨rfl, rfl⟩ | ⟨rfl, rfl⟩ | ⟨rfl, rfl⟩ | ⟨rfl, rfl⟩ | ⟨rfl, rfl⟩
  all_goals exact ⟨by decide, operator_of_opens opens, rfl⟩

theorem takesWhole_dash {kind : Terminal} (dash : kind = .addOp ∨ kind = .minus)
    (fits : kind.fits (previous.any endsOperand) = true) : TakesWhole previous kind ['-'] := by
  intro behind opens
  refine ⟨'-', behind, .dash, rfl, by decide, operator_of_opens opens, ?_⟩
  rw [Piece.kind?, dashKind_of_fits dash fits]

theorem takesWhole_number {digits : List Char} (isNumber : IsNumber digits) :
    TakesWhole previous .literal digits := by
  intro behind opens
  obtain ⟨hne, hall⟩ := isNumber
  cases digits with
  | nil => exact absurd rfl hne
  | cons first digits =>
    have hfirst := hall first List.mem_cons_self
    obtain ⟨htake, hdrop⟩ := span_stops behind
      (fun c mem => hall c (List.mem_cons_of_mem _ mem)) fun c mem => isDigit_layout c (opens c mem)
    refine ⟨first, digits ++ behind, .token .literal, rfl,
      not_mem_layoutChars isDigit_layout hfirst, ?_, rfl⟩
    rw [of_digit hfirst, number, htake, hdrop]
    split
    · exact absurd (opens '.' rfl) (by decide)
    · rfl

theorem takesWhole_fraction {digits decimals : List Char} (isNumber : IsNumber digits)
    (isFraction : IsNumber decimals) :
    TakesWhole previous .literal (digits ++ '.' :: decimals) := by
  intro behind opens
  obtain ⟨hne, hall⟩ := isNumber
  obtain ⟨hne', hall'⟩ := isFraction
  cases digits with
  | nil => exact absurd rfl hne
  | cons first digits =>
    cases decimals with
    | nil => exact absurd rfl hne'
    | cons point decimals =>
      have hfirst := hall first List.mem_cons_self
      have hpoint := hall' point List.mem_cons_self
      have hstops : '.'.isDigit = false := rfl
      obtain ⟨htake, hdrop⟩ := span_stops_at (point :: decimals ++ behind)
        (fun c mem => hall c (List.mem_cons_of_mem _ mem)) hstops
      obtain ⟨htake', hdrop'⟩ := span_stops behind
        (fun c mem => hall' c (List.mem_cons_of_mem _ mem))
        fun c mem => isDigit_layout c (opens c mem)
      refine ⟨first, digits ++ '.' :: (point :: decimals ++ behind), .token .literal, ?_,
        not_mem_layoutChars isDigit_layout hfirst, ?_, rfl⟩
      · simp
      · rw [of_digit hfirst, number, htake, hdrop]
        simp only [List.cons_append, hpoint, if_true, htake', hdrop']

theorem takesWhole_quoted {body : List Char} (isLine : IsLine body) (unquoted : '"' ∉ body) :
    TakesWhole previous .literal ('"' :: body ++ ['"']) := by
  intro behind _
  have hall : ∀ c ∈ body, isQuotable c = true := by
    intro c mem
    have hquote : c ≠ '"' := fun h => unquoted (h ▸ mem)
    have hnewline : c ≠ '\n' := fun h => isLine (h ▸ mem)
    simp [isQuotable, hquote, hnewline]
  have hquote : isQuotable '"' = false := rfl
  obtain ⟨htake, hdrop⟩ := span_stops_at behind hall hquote
  refine ⟨'"', body ++ '"' :: behind, .token .literal, by simp, by decide, ?_, rfl⟩
  change quoted (body ++ '"' :: behind) = _
  rw [quoted, hdrop, htake]
  rfl

/-- A text that can be looked up: a keyword of its kind, an operator, or a dash. -/
def IsListed (kind : Terminal) (text : List Char) : Prop :=
  (IsWord text ∧ wordKind text = kind) ∨ (text, kind) ∈ longOperators ∨
    (∃ entry ∈ shortOperators, [entry.1] = text ∧ entry.2 = kind) ∨
    (text = ['-'] ∧ (kind = .addOp ∨ kind = .minus))
  deriving Decidable

theorem takesWhole_listed {kind : Terminal} {text : List Char} (isListed : IsListed kind text)
    (fits : kind.fits (previous.any endsOperand) = true) : TakesWhole previous kind text := by
  rcases isListed with ⟨hword, rfl⟩ | hlong | ⟨⟨c, _⟩, hshort, rfl, rfl⟩ | ⟨rfl, hdash⟩
  · exact takesWhole_word hword
  · exact takesWhole_long hlong
  · exact takesWhole_short hshort
  · exact takesWhole_dash hdash fits

theorem isListed_spelling {kind : Terminal} {word : String} (spelling : kind.spelling = some word) :
    IsListed kind word.toList := by
  cases kind <;> cases spelling <;> decide

/-- A name is a word that is not looked up as anything else. -/
theorem wordKind_ident {word : List Char} (free : word ∉ keywords.map Prod.fst) :
    wordKind word = .ident := by
  rcases wordKind_cases word with hkeyword | ⟨hident, -⟩
  · exact absurd (List.mem_map_of_mem (f := Prod.fst) hkeyword) free
  · exact hident

theorem isWordPart_of_isWordStart {c : Char} (start : isWordStart c = true) :
    isWordPart c = true := by
  rw [isWordStart, Bool.or_eq_true] at start
  rw [isWordPart, Char.isAlphanum, Bool.or_eq_true, Bool.or_eq_true]
  exact start.imp_left Or.inl

/-- Every lexeme is cut off whole in front of layout, if its kind fits the token before it. -/
theorem takesWhole {kind : Terminal} {lexeme : List Char} (spells : Lexeme kind lexeme)
    (fits : kind.fits (previous.any endsOperand) = true) : TakesWhole previous kind lexeme := by
  cases spells with
  | spelled spelling => exact takesWhole_listed (isListed_spelling spelling) fits
  | @dataType word mem =>
    have hlisted : ∀ word ∈ ["int", "float", "bool", "string"],
        IsListed .dataType word.toList := by decide
    exact takesWhole_listed (hlisted word mem) fits
  | @compareOp word mem =>
    have hlisted : ∀ word ∈ ["==", "!=", "<", "<=", ">", ">="],
        IsListed .compareOp word.toList := by decide
    exact takesWhole_listed (hlisted word mem) fits
  | @addOp word mem =>
    have hlisted : ∀ word ∈ ["+", "-"], IsListed .addOp word.toList := by decide
    exact takesWhole_listed (hlisted word mem) fits
  | @mulOp word mem =>
    have hlisted : ∀ word ∈ ["*", "/", "%"], IsListed .mulOp word.toList := by decide
    exact takesWhole_listed (hlisted word mem) fits
  | @truth word mem =>
    have hlisted : ∀ word ∈ ["true", "false"], IsListed .literal word.toList := by decide
    exact takesWhole_listed (hlisted word mem) fits
  | whole isNumber => exact takesWhole_number isNumber
  | fraction isNumber isFraction => exact takesWhole_fraction isNumber isFraction
  | quoted isLine unquoted => exact takesWhole_quoted isLine unquoted
  | @ident first word start all free =>
    have hword : IsWord (first :: word) := by
      refine ⟨start, List.all_eq_true.mpr fun c mem => ?_⟩
      rcases List.mem_cons.mp mem with rfl | hmem
      · exact isWordPart_of_isWordStart start
      · exact all c hmem
    rw [← wordKind_ident free]
    exact takesWhole_word hword

end Cut

theorem Terminal.fits_somewhere (kind : Terminal) :
    ∃ previous : Option Terminal, kind.fits (previous.any endsOperand) = true := by
  have hsome : kind.fits true = true ∨ kind.fits false = true := by cases kind <;> decide
  rcases hsome with hended | hopen
  · exact ⟨some .ident, hended⟩
  · exact ⟨none, hopen⟩

/-- A lexeme is a text of at least one character on one line. -/
theorem Lexeme.isLine_and_ne_nil {kind : Terminal} {lexeme : List Char}
    (spells : Lexeme kind lexeme) : IsLine lexeme ∧ lexeme ≠ [] := by
  obtain ⟨previous, hfits⟩ := kind.fits_somewhere
  obtain ⟨first, text, piece, -, hplain, hcut, -⟩ := Cut.takesWhole spells hfits [] nofun
  obtain ⟨_, htoken⟩ := Cut.exists_isToken previous hplain text
  have hfirst := Cut.head?_lexeme first text
  have hline := htoken.isLine
  rw [hcut] at hfirst hline
  refine ⟨hline, ?_⟩
  rintro rfl
  cases hfirst

end ShiftReduce
