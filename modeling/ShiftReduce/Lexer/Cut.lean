import ShiftReduce.Lexer.Spelling

/-!
Cutting one piece off the front of a text. A piece is as long as its class allows: a run of
blanks, a comment to the end of its line, a whole word, a number with its fraction, a quoted text,
an operator. What fits no class is a piece as well: a quote without its partner takes the rest of
its line, any other character stands alone. The two lemmas say that a cut loses no character and
is never empty, so cutting again and again comes to an end.
-/

namespace ShiftReduce

/-- What a piece of text is to the lexer. -/
inductive Piece where
  | layout
  | newline
  | dash
  | token (kind : Terminal)
  deriving DecidableEq, Repr

/-- A piece, its characters, and the text behind it. -/
structure Cut where
  piece : Piece
  lexeme : List Char
  rest : List Char
  deriving DecidableEq, Repr

namespace Cut

/-- The first character together with all that follow it and satisfy `p`. -/
def stretch (piece : Piece) (first : Char) (p : Char → Bool) (text : List Char) : Cut :=
  ⟨piece, first :: text.takeWhile p, text.dropWhile p⟩

/-- A word; its kind is looked up once it is whole. -/
def word (first : Char) (text : List Char) : Cut :=
  let word := first :: text.takeWhile isWordPart
  ⟨.token (wordKind word), word, text.dropWhile isWordPart⟩

/-- Digits, and behind them a point with further digits where both are there. -/
def number (first : Char) (text : List Char) : Cut :=
  let whole := first :: text.takeWhile Char.isDigit
  match text.dropWhile Char.isDigit with
  | '.' :: digit :: rest =>
    if digit.isDigit then
      ⟨.token .literal, whole ++ '.' :: digit :: rest.takeWhile Char.isDigit,
        rest.dropWhile Char.isDigit⟩
    else ⟨.token .literal, whole, '.' :: digit :: rest⟩
  | rest => ⟨.token .literal, whole, rest⟩

/-- Whether a character can stand between the quotes of a text. -/
def isQuotable (c : Char) : Bool := c != '"' && c != '\n'

/-- A quoted text, or all that stands on the line behind a quote that is never closed. -/
def quoted (text : List Char) : Cut :=
  match text.dropWhile isQuotable with
  | '"' :: rest => ⟨.token .literal, '"' :: text.takeWhile isQuotable ++ ['"'], rest⟩
  | rest => ⟨.token .unknown, '"' :: text.takeWhile isQuotable, rest⟩

/-- An operator of one character, a minus sign, or a character that begins no piece. -/
def short (first : Char) (text : List Char) : Cut :=
  if first = '-' then ⟨.dash, [first], text⟩
  else ⟨.token ((shortOperators.lookup first).getD .unknown), [first], text⟩

/-- The longest operator, or a character that begins no piece. -/
def operator (first : Char) (text : List Char) : Cut :=
  match text with
  | [] => short first []
  | second :: rest =>
    match longOperators.lookup [first, second] with
    | some kind => ⟨.token kind, [first, second], rest⟩
    | none => short first text

/-- The piece that begins with `first` and goes on in `text`. -/
def of (first : Char) (text : List Char) : Cut :=
  if first = '\n' then ⟨.newline, [first], text⟩
  else if isBlank first then stretch .layout first isBlank text
  else if first = '#' then stretch .layout first (· != '\n') text
  else if isWordStart first then word first text
  else if first.isDigit then number first text
  else if first = '"' then quoted text
  else operator first text

/-! ### A cut loses nothing -/

theorem number_append (first : Char) (text : List Char) :
    (number first text).lexeme ++ (number first text).rest = first :: text := by
  have whole : text.takeWhile Char.isDigit ++ text.dropWhile Char.isDigit = text :=
    List.takeWhile_append_dropWhile
  unfold number
  split
  · rename_i digit rest eq
    split
    · simp [List.takeWhile_append_dropWhile, ← eq, whole]
    · simp [← eq, whole]
  · simp [whole]

theorem quoted_append (text : List Char) :
    (quoted text).lexeme ++ (quoted text).rest = '"' :: text := by
  have whole : text.takeWhile isQuotable ++ text.dropWhile isQuotable = text :=
    List.takeWhile_append_dropWhile
  unfold quoted
  split
  · rename_i rest eq
    simp [← eq, whole]
  · simp [whole]

theorem short_append (first : Char) (text : List Char) :
    (short first text).lexeme ++ (short first text).rest = first :: text := by
  unfold short
  split <;> rfl

theorem operator_append (first : Char) (text : List Char) :
    (operator first text).lexeme ++ (operator first text).rest = first :: text := by
  unfold operator
  split
  · exact short_append first []
  · split
    · rfl
    · exact short_append first _

/-- The piece and the rest make up the text. -/
theorem lexeme_append_rest (first : Char) (text : List Char) :
    (of first text).lexeme ++ (of first text).rest = first :: text := by
  unfold of
  repeat' split
  · rfl
  · simp [stretch]
  · simp [stretch]
  · simp [word]
  · exact number_append first text
  · subst_vars; exact quoted_append text
  · exact operator_append first text

/-! ### A cut is never empty -/

theorem head?_operator (first : Char) (text : List Char) :
    (operator first text).lexeme.head? = some first := by
  unfold operator short
  repeat' split
  all_goals rfl

/-- A piece begins with the character that it was cut for. -/
theorem head?_lexeme (first : Char) (text : List Char) :
    (of first text).lexeme.head? = some first := by
  unfold of
  repeat' split
  · rfl
  · rfl
  · rfl
  · rfl
  · unfold number; repeat' split
    all_goals rfl
  · subst_vars; unfold quoted; split
    all_goals rfl
  · exact head?_operator first text

theorem length_rest_lt (first : Char) (text : List Char) :
    (of first text).rest.length < (first :: text).length := by
  have whole := congrArg List.length (lexeme_append_rest first text)
  have front := head?_lexeme first text
  cases h : (of first text).lexeme with
  | nil => simp [h] at front
  | cons c cs => simp [h] at whole ⊢; omega

end Cut

end ShiftReduce
