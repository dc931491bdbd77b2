import Mathlib.Computability.Language
import ShiftReduce.Lexer.Layout
import ShiftReduce.Lexer.Cut

/-!
The pieces of a text as patterns declare them. A pattern is one spelling or a class of texts given
by a regular expression, and stands for a kind of piece. At any place the longest text that some
pattern matches is the next piece, and a spelling goes before a class that has the same text. Where
no pattern matches, one character is astray, or a quote that its line does not close and the rest of
that line. Nothing here says how a piece is found.
-/

open Computability

namespace ShiftReduce

/-! ### Regular expressions -/

/-- The texts of one character with the property. -/
def oneOf (p : Char → Bool) : Language Char := {text | ∃ c, p c = true ∧ text = [c]}

/-- The one text. -/
def exactly (word : String) : Language Char := {word.toList}

theorem mem_oneOf_kstar {p : Char → Bool} {text : List Char} :
    text ∈ (oneOf p)∗ ↔ ∀ c ∈ text, p c = true := by
  rw [Language.mem_kstar]
  constructor
  · rintro ⟨parts, rfl, hparts⟩ c mem
    obtain ⟨part, hpart, hmem⟩ := List.mem_flatten.mp mem
    obtain ⟨found, hfound, rfl⟩ := hparts part hpart
    rwa [List.mem_singleton.mp hmem]
  · intro all
    refine ⟨text.map fun c => [c], by simp [← List.flatMap_def], fun part mem => ?_⟩
    obtain ⟨c, hmem, rfl⟩ := List.mem_map.mp mem
    exact ⟨c, all c hmem, rfl⟩

/-- Texts that begin with a character of one class and go on with characters of another. -/
theorem mem_oneOf_mul_kstar {p q : Char → Bool} {text : List Char} :
    text ∈ oneOf p * (oneOf q)∗ ↔
      ∃ first rest, text = first :: rest ∧ p first = true ∧ ∀ c ∈ rest, q c = true := by
  rw [Language.mem_mul]
  constructor
  · rintro ⟨_, ⟨first, hfirst, rfl⟩, rest, hrest, rfl⟩
    exact ⟨first, rest, rfl, hfirst, mem_oneOf_kstar.mp hrest⟩
  · rintro ⟨first, rest, rfl, hfirst, hrest⟩
    exact ⟨[first], ⟨first, hfirst, rfl⟩, rest, mem_oneOf_kstar.mpr hrest, rfl⟩

/-! ### Patterns -/

namespace Pattern

/-- A character between two others. -/
def between (low high c : Char) : Bool := low ≤ c && c ≤ high

/-- A run of `[ \t\r\f]`, or `#` and what follows it on the line. -/
def layout : Language Char :=
  oneOf (fun c => c ∈ [' ', '\t', '\r', '\x0c']) *
      (oneOf fun c => c ∈ [' ', '\t', '\r', '\x0c'])∗ +
    exactly "#" * (oneOf fun c => c ≠ '\n')∗

/-- `[0-9]+`, and a point with `[0-9]+` behind it or not. -/
def number : Language Char :=
  oneOf (between '0' '9') * (oneOf (between '0' '9'))∗ *
    (1 + exactly "." * (oneOf (between '0' '9') * (oneOf (between '0' '9'))∗))

/-- Two quotes with neither a quote nor a newline between them. -/
def quoted : Language Char :=
  exactly "\"" * (oneOf fun c => c ≠ '"' ∧ c ≠ '\n')∗ * exactly "\""

/-- `[A-Za-z_]` and behind it any number of `[A-Za-z0-9_]`. -/
def word : Language Char :=
  oneOf (fun c => between 'A' 'Z' c || between 'a' 'z' c || c == '_') *
    (oneOf fun c => between 'A' 'Z' c || between 'a' 'z' c || between '0' '9' c || c == '_')∗

/-- The classes of texts, with the pieces they stand for. -/
def classes : List (Language Char × Piece) :=
  [(layout, .layout), (number, .token .literal), (quoted, .token .literal), (word, .token .ident)]

/-- The single spellings, with the pieces they stand for. -/
def spellings : List (List Char × Piece) :=
  [("\n".toList, .newline), ("prog".toList, .token .prog), ("done".toList, .token .done),
    ("set".toList, .token .set), ("if".toList, .token .ifWord), ("else".toList, .token .elseWord),
    ("while".toList, .token .whileWord), ("int".toList, .token .dataType),
    ("float".toList, .token .dataType), ("bool".toList, .token .dataType),
    ("string".toList, .token .dataType), ("true".toList, .token .literal),
    ("false".toList, .token .literal), (":)".toList, .token .smile), (":".toList, .token .colon),
    ("=".toList, .token .assign), ("(".toList, .token .leftParen),
    (")".toList, .token .rightParen), ("||".toList, .token .orOp), ("&&".toList, .token .andOp),
    ("==".toList, .token .compareOp), ("!=".toList, .token .compareOp),
    ("<".toList, .token .compareOp), ("<=".toList, .token .compareOp),
    (">".toList, .token .compareOp), (">=".toList, .token .compareOp), ("+".toList, .token .addOp),
    ("-".toList, .dash), ("*".toList, .token .mulOp), ("/".toList, .token .mulOp),
    ("%".toList, .token .mulOp), ("!".toList, .token .notOp), (";".toList, .token .semicolon)]

/-- Some class stands for the piece and has the text. -/
def InClass (piece : Piece) (lexeme : List Char) : Prop :=
  ∃ language, (language, piece) ∈ classes ∧ lexeme ∈ language

/-- Some pattern stands for the piece and matches the text. -/
def Matches (piece : Piece) (lexeme : List Char) : Prop :=
  (lexeme, piece) ∈ spellings ∨ InClass piece lexeme

/-- What the patterns choose at the front of a text: the longest beginning of it that one of them
matches, as the piece that its spelling stands for, if it is a spelling. -/
structure Chosen (text : List Char) (piece : Piece) (lexeme : List Char) : Prop where
  begins : lexeme <+: text
  matched : Matches piece lexeme
  longest : ∀ other front, front <+: text → Matches other front → front.length ≤ lexeme.length
  spelled : ∀ other, (lexeme, other) ∈ spellings → (lexeme, piece) ∈ spellings

/-- No pattern matches any beginning of the text. -/
def Unmatched (text : List Char) : Prop := ∀ piece front, front <+: text → ¬Matches piece front

/-- What stands astray at the front of a text: a quote and what follows it on its line, or any other
single character. -/
inductive Astray : List Char → List Char → Prop
  | quote {body rest : List Char} (isLine : IsLine body) (stops : ∀ c ∈ rest.head?, c = '\n') :
      Astray ('"' :: body ++ rest) ('"' :: body)
  | character {c : Char} {rest : List Char} (plain : c ≠ '"') : Astray (c :: rest) [c]

end Pattern

end ShiftReduce
