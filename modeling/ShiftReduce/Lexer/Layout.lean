import ShiftReduce.Lexer.Spelling

/-!
Layout, the text between tokens: blanks, newlines and comments in any mix. A comment reaches to
the end of its line, so layout that something follows closes each of its comments with a newline,
and only at the end of a text may a comment stay open.
-/

namespace ShiftReduce

/-- Text without a newline. -/
def IsLine (text : List Char) : Prop := '\n' ∉ text

/-- Layout that closes its comments. -/
inductive Layout : List Char → Prop where
  | nil : Layout []
  | blank {c : Char} {text : List Char} (isBlank : isBlank c) (rest : Layout text) :
      Layout (c :: text)
  | newline {text : List Char} (rest : Layout text) : Layout ('\n' :: text)
  | comment {body text : List Char} (isLine : IsLine body) (rest : Layout text) :
      Layout ('#' :: body ++ '\n' :: text)

/-- Layout that may end in an open comment. -/
inductive FinalLayout : List Char → Prop where
  | closed {text : List Char} (layout : Layout text) : FinalLayout text
  | comment {text body : List Char} (layout : Layout text) (isLine : IsLine body) :
      FinalLayout (text ++ '#' :: body)

theorem Layout.append {front back : List Char} (left : Layout front) (right : Layout back) :
    Layout (front ++ back) := by
  induction left with
  | nil => exact right
  | blank isBlank _ ih => exact .blank isBlank ih
  | newline _ ih => exact .newline ih
  | comment isLine _ ih => simpa using Layout.comment isLine ih

end ShiftReduce
