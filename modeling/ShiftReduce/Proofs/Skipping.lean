import ShiftReduce.Lexer.Basic
import ShiftReduce.Proofs.Pieces

/-!
What the lexer skips. Every text is layout to its end, or has layout up to the first character of a
token. The lexer reads over layout to what stands behind it and counts the newlines of all it
skips, so its next token is the one that begins there, or the end on the last line.
-/

namespace ShiftReduce

/-! ### Layout in front of a token -/

theorem IsLine.count_eq_zero {text : List Char} (isLine : IsLine text) : text.count '\n' = 0 :=
  List.count_eq_zero_of_not_mem isLine

/-- A comment and what follows it up to a newline, if one comes. -/
theorem line_or_newline (text : List Char) :
    IsLine text ∨ ∃ body rest, text = body ++ '\n' :: rest ∧ IsLine body := by
  induction text with
  | nil => exact Or.inl List.not_mem_nil
  | cons c text ih =>
    by_cases hnewline : c = '\n'
    · exact Or.inr ⟨[], text, by rw [hnewline, List.nil_append], List.not_mem_nil⟩
    · rcases ih with hline | ⟨body, rest, rfl, hbody⟩
      · exact Or.inl (isLine_cons.mpr ⟨hnewline, hline⟩)
      · exact Or.inr ⟨c :: body, rest, rfl, isLine_cons.mpr ⟨hnewline, hbody⟩⟩

theorem FinalLayout.append {front back : List Char} (left : Layout front)
    (right : FinalLayout back) : FinalLayout (front ++ back) := by
  cases right with
  | closed layout => exact .closed (left.append layout)
  | comment layout isLine =>
    rw [← List.append_assoc]
    exact .comment (left.append layout) isLine

/-- A text is layout to its end, or layout with a character behind it that begins none. -/
theorem layout_or_plain (text : List Char) :
    FinalLayout text ∨
      ∃ gap first rest, text = gap ++ first :: rest ∧ Layout gap ∧ first ∉ layoutChars := by
  match text with
  | [] => exact Or.inl (.closed .nil)
  | c :: text =>
    -- what is left of the text behind a piece of layout
    have hbehind : ∀ {front rest : List Char}, Layout front → c :: text = front ++ rest →
        rest.length ≤ text.length → FinalLayout (c :: text) ∨
          ∃ gap first rest, c :: text = gap ++ first :: rest ∧ Layout gap ∧
            first ∉ layoutChars := by
      intro front rest hfront hsplit hshorter
      rcases layout_or_plain rest with hfinal | ⟨gap, first, more, rfl, hgap, hplain⟩
      · exact Or.inl (hsplit ▸ FinalLayout.append hfront hfinal)
      · exact Or.inr ⟨front ++ gap, first, more, by rw [hsplit, List.append_assoc],
          hfront.append hgap, hplain⟩
    by_cases hlayout : c ∈ layoutChars
    · rcases mem_layoutChars.mp hlayout with hblank | rfl | rfl
      · exact hbehind (.blank hblank .nil) rfl (Nat.le_refl _)
      · exact hbehind (.newline .nil) rfl (Nat.le_refl _)
      · rcases line_or_newline text with hline | ⟨body, rest, rfl, hbody⟩
        · exact Or.inl (.comment .nil hline)
        · have hsplit : '#' :: (body ++ '\n' :: rest) = '#' :: body ++ '\n' :: [] ++ rest := by simp
          refine hbehind (.comment hbody .nil) hsplit ?_
          rw [List.length_append, List.length_cons]
          omega
    · exact Or.inr ⟨[], c, text, rfl, .nil, hlayout⟩
termination_by text.length

namespace Lexer

variable (line : Nat) (previous : Option Terminal)

/-! ### Reading over layout -/

theorem next_nil : (⟨[], line, previous⟩ : Lexer).next = (.atEnd line, ⟨[], line, previous⟩) := by
  rw [next]

theorem next_newline (text : List Char) :
    (⟨'\n' :: text, line, previous⟩ : Lexer).next =
      (⟨text, line + 1, previous⟩ : Lexer).next := by
  rw [next]
  rfl

theorem next_stretch {first : Char} {p : Char → Bool} {text : List Char}
    (eq : Cut.of first text = .stretch .layout first p text) :
    (⟨first :: text, line, previous⟩ : Lexer).next =
      (⟨text.dropWhile p, line, previous⟩ : Lexer).next := by
  rw [next]
  simp only [eq, Cut.stretch]

theorem of_blank {first : Char} (blank : isBlank first = true) (text : List Char) :
    Cut.of first text = .stretch .layout first isBlank text := by
  have hnewline : first ≠ '\n' := by
    rintro rfl
    cases blank
  rw [Cut.of, if_neg hnewline, if_pos blank]

theorem next_dropWhile_isBlank (text : List Char) :
    (⟨text.dropWhile isBlank, line, previous⟩ : Lexer).next =
      (⟨text, line, previous⟩ : Lexer).next := by
  cases text with
  | nil => rfl
  | cons c text =>
    by_cases hblank : isBlank c = true
    · rw [List.dropWhile_cons_of_pos hblank, next_stretch _ _ (of_blank hblank text)]
    · rw [List.dropWhile_cons_of_neg hblank]

theorem next_blank {first : Char} (blank : isBlank first = true) (text : List Char) :
    (⟨first :: text, line, previous⟩ : Lexer).next = (⟨text, line, previous⟩ : Lexer).next := by
  rw [next_stretch _ _ (of_blank blank text), next_dropWhile_isBlank]

theorem next_comment {body : List Char} (isLine : IsLine body) (behind : List Char)
    (stops : ∀ c ∈ behind.head?, c = '\n') :
    (⟨'#' :: (body ++ behind), line, previous⟩ : Lexer).next =
      (⟨behind, line, previous⟩ : Lexer).next := by
  obtain ⟨-, hdrop⟩ := span_stops behind isLine.all_ne fun c mem => by rw [stops c mem]; rfl
  have heq : Cut.of '#' (body ++ behind) = .stretch .layout '#' (· != '\n') (body ++ behind) := rfl
  rw [next_stretch _ _ heq, hdrop]

/-- Layout is read over, and each of its newlines counted. -/
theorem next_append {gap : List Char} (layout : Layout gap) (text : List Char) :
    (⟨gap ++ text, line, previous⟩ : Lexer).next =
      (⟨text, line + gap.count '\n', previous⟩ : Lexer).next := by
  induction layout generalizing line with
  | nil => rfl
  | @blank c gap blank rest ih =>
    have hnewline : c ≠ '\n' := by
      rintro rfl
      cases blank
    rw [List.cons_append, next_blank _ _ blank, ih, List.count_cons_of_ne hnewline]
  | @newline gap rest ih =>
    rw [List.cons_append, next_newline, ih, List.count_cons_self, Nat.add_right_comm, Nat.add_assoc]
  | @comment body gap isLine rest ih =>
    have hcount : ('#' :: (body ++ '\n' :: gap)).count '\n' = gap.count '\n' + 1 := by
      rw [List.count_cons_of_ne (by decide), List.count_append, isLine.count_eq_zero,
        List.count_cons_self, Nat.zero_add]
    rw [List.cons_append, List.cons_append, List.append_assoc, next_comment _ _ isLine _,
      List.cons_append, next_newline, ih, hcount, Nat.add_right_comm, Nat.add_assoc]
    rintro c ⟨⟩
    rfl

/-- Behind layout that nothing follows stands the end, on the last line. -/
theorem next_final {text : List Char} (layout : FinalLayout text) :
    (⟨text, line, previous⟩ : Lexer).next =
      (.atEnd (line + text.count '\n'), ⟨[], line + text.count '\n', previous⟩) := by
  cases layout with
  | closed layout =>
    have hnext := next_append line previous layout []
    rw [List.append_nil] at hnext
    rw [hnext, next_nil]
  | @comment gap body layout isLine =>
    have hcomment := next_comment (line + gap.count '\n') previous isLine [] nofun
    rw [List.append_nil] at hcomment
    have hopen : IsLine ('#' :: body) := isLine_cons.mpr ⟨by decide, isLine⟩
    rw [next_append _ _ layout, hcomment, next_nil, List.count_append,
      hopen.count_eq_zero, Nat.add_zero]

/-- A token is given out on the line reached. -/
theorem next_token {first : Char} {text : List Char} {kind : Terminal}
    (isKind : (Cut.of first text).piece.kind? previous = some kind) :
    (⟨first :: text, line, previous⟩ : Lexer).next =
      (⟨first :: text, line, previous⟩ : Lexer).give kind (Cut.of first text) := by
  rw [next]
  cases hpiece : (Cut.of first text).piece with
  | layout =>
    rw [hpiece] at isKind
    cases isKind
  | newline =>
    rw [hpiece] at isKind
    cases isKind
  | dash =>
    rw [hpiece] at isKind
    obtain rfl := Option.some.inj isKind
    simp only [hpiece]
  | token other =>
    rw [hpiece] at isKind
    obtain rfl := Option.some.inj isKind
    simp only [hpiece]

/-- The next token stands behind layout, or the layout reaches to the end. -/
theorem next_cases (lexer : Lexer) :
    (FinalLayout lexer.rest ∧ lexer.next = (.atEnd (lexer.line + lexer.rest.count '\n'),
      ⟨[], lexer.line + lexer.rest.count '\n', lexer.previous⟩)) ∨
    ∃ gap first text kind, lexer.rest = gap ++ first :: text ∧ Layout gap ∧
      Cut.IsToken lexer.previous kind (Cut.of first text) ∧
      lexer.next =
        (⟨first :: text, lexer.line + gap.count '\n', lexer.previous⟩ : Lexer).give kind
          (Cut.of first text) := by
  obtain ⟨rest, line, previous⟩ := lexer
  rcases layout_or_plain rest with hfinal | ⟨gap, first, text, rfl, hgap, hplain⟩
  · exact Or.inl ⟨hfinal, next_final line previous hfinal⟩
  · obtain ⟨kind, htoken⟩ := Cut.exists_isToken previous hplain text
    refine Or.inr ⟨gap, first, text, kind, rfl, hgap, htoken, ?_⟩
    rw [next_append _ _ hgap, next_token _ _ htoken.kind_eq]

end Lexer

end ShiftReduce
