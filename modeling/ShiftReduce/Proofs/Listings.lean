import ShiftReduce.CommandLine
import ShiftReduce.Proofs.Outlines

/-!
What a listing tells. The line of an unknown token begins with a bracket, and that of any other with
the name of its kind, which never does; behind that stands the text, whatever characters it holds.
So a line tells the kind and the text of its token, and a listing those of all tokens of a text. The
loop that makes a listing goes on until an end token comes, which is right behind the tokens.
-/

namespace ShiftReduce

/-- Two functions that tell the elements of two lists apart alike tell the lists apart alike. -/
theorem map_eq_map_congr {α β γ : Type} {f : α → β} {g : α → γ} {left right : List α}
    (alike : ∀ a ∈ left, ∀ b ∈ right, (f a = f b ↔ g a = g b)) :
    left.map f = right.map f ↔ left.map g = right.map g := by
  induction left generalizing right with
  | nil => cases right <;> simp
  | cons a left ih =>
    cases right with
    | nil => simp
    | cons b right =>
      have hfirst := alike a List.mem_cons_self b List.mem_cons_self
      have hrest := ih fun a mem b mem' =>
        alike a (List.mem_cons_of_mem _ mem) b (List.mem_cons_of_mem _ mem')
      rw [List.map_cons, List.map_cons, List.map_cons, List.map_cons, List.cons.injEq,
        List.cons.injEq, hfirst, hrest]

namespace CommandLine

/-! ### The loop -/

/-- Lists the tokens of a source until one ends the input. Nothing comes of it if that is not among
the first `limit` of them. -/
def listWithin {σ : Type} [TokenSource σ] : (limit : Nat) → σ → Option (List String)
  | 0, _ => none
  | limit + 1, source =>
    let pulled := TokenSource.next source
    if pulled.1.kind = .endOfInput then some []
    else (listWithin limit pulled.2).map (listing pulled.1 :: ·)

/-- The loop ends with the first end token. -/
theorem listWithin_eq {σ : Type} [FiniteSource σ] (limit : Nat) (source : σ) :
    listWithin limit source =
      if (FiniteSource.tokens source).length < limit then
        some ((FiniteSource.tokens source).map listing)
      else none := by
  induction limit generalizing source with
  | zero => rfl
  | succ limit ih =>
    rw [listWithin, FiniteSource.tokens]
    by_cases hends : (TokenSource.next source).1.kind = .endOfInput
    · simp [hends]
    · rw [if_neg hends, if_neg hends, ih, List.length_cons, List.map_cons]
      simp only [Nat.add_lt_add_iff_right]
      split <;> rfl

/-! ### Lines -/

theorem listing_unknown {token : Token} (unknown : token.kind = .unknown) : listing token =
    "[Lexer]: Unexpected characters `" ++ token.text.getD "" ++ "`" :=
  if_pos unknown

theorem listing_known {token : Token} (known : token.kind ≠ .unknown) :
    listing token = token.describe :=
  if_neg known

theorem no_name_begins_bracketed :
    ∀ symbol ∈ Symbol.all, symbol.name.toList.head? ≠ some '[' := by decide

/-- A description is never taken for the line of an unknown token. -/
theorem describe_ne_listing {token : Token} (unknown : token.kind = .unknown) (other : Token) :
    other.describe ≠ listing token := by
  intro h
  have hhead : other.describe.toList.head? = some '[' := by
    rw [h, listing_unknown unknown]
    simp
  rw [Token.toList_describe, List.head?_append_of_ne_nil _ (Symbol.name_ne_nil _)] at hhead
  exact no_name_begins_bracketed _ (Symbol.mem_all _) hhead

/-- Tokens of different kinds are listed differently. -/
theorem kind_eq_of_listing {token other : Token} (h : listing token = listing other) :
    token.kind = other.kind := by
  by_cases hunknown : token.kind = .unknown <;> by_cases hother : other.kind = .unknown
  · rw [hunknown, hother]
  · rw [listing_known hother] at h
    exact absurd h.symm (describe_ne_listing hunknown other)
  · rw [listing_known hunknown] at h
    exact absurd h (describe_ne_listing hother token)
  · rw [listing_known hunknown, listing_known hother, Token.describe_eq_iff] at h
    exact (Token.mk.inj h).1

/-- A line tells everything of a token but its place, if the token has a text where it should. -/
theorem listing_eq_iff {token other : Token} (spelled : token.text.isSome = token.kind.carriesText)
    (spelled' : other.text.isSome = other.kind.carriesText) :
    listing token = listing other ↔ token.unplaced = other.unplaced := by
  constructor
  · intro h
    have hkind := kind_eq_of_listing h
    by_cases hunknown : token.kind = .unknown
    · rw [hunknown] at spelled
      rw [← hkind, hunknown] at spelled'
      obtain ⟨text, htext⟩ := Option.isSome_iff_exists.mp spelled
      obtain ⟨text', htext'⟩ := Option.isSome_iff_exists.mp spelled'
      rw [listing_unknown hunknown, listing_unknown (hkind ▸ hunknown), htext, htext',
        String.append_left_inj, String.append_right_inj] at h
      obtain rfl : text = text' := h
      rw [Token.unplaced, Token.unplaced, hkind, htext, htext']
    · rw [listing_known hunknown, listing_known (hkind ▸ hunknown)] at h
      exact Token.describe_eq_iff.mp h
  · intro h
    have hplace : ∀ token : Token, listing token = listing token.unplaced := fun _ => rfl
    rw [hplace token, h, ← hplace]

theorem isLine_listing {token : Token} (onOneLine : token.OnOneLine) :
    IsLine (listing token).toList := by
  by_cases hunknown : token.kind = .unknown
  · have htext : IsLine (token.text.getD "").toList := by
      cases hsome : token.text with
      | none => exact List.not_mem_nil
      | some text => exact onOneLine text hsome
    have hfront : IsLine "[Lexer]: Unexpected characters `".toList := by
      unfold IsLine
      decide
    rw [listing_unknown hunknown, String.toList_append, String.toList_append, isLine_append,
      isLine_append]
    exact ⟨⟨hfront, htext⟩, by simp [IsLine]⟩
  · rw [listing_known hunknown]
    exact onOneLine.isLine_describe

/-! ### Listings -/

/-- A text is listed with one line for each of its tokens, and two texts alike just when their
tokens have the same kinds and texts. -/
theorem dumpLines_eq_iff (text other : String) :
    (∀ limit, listWithin limit (Lexer.ofString text) =
      if (tokenize text).length < limit then some (dumpLines text) else none) ∧
    (∃ last : Token, last.kind = .endOfInput ∧
      (TokenSource.take (Lexer.ofString text) ((tokenize text).length + 1)).1 =
        tokenize text ++ [last]) ∧
    (∀ token ∈ tokenize text, token.kind ≠ .endOfInput) ∧
    dumpLines text = (tokenize text).map listing ∧
    (∀ line ∈ dumpLines text, IsLine line.toList) ∧
    (dumpLines text = dumpLines other ↔
      (tokenize text).map Token.unplaced = (tokenize other).map Token.unplaced) ∧
    ∀ token token' : Token, token.kind ≠ token'.kind → listing token ≠ listing token' := by
  refine ⟨fun limit => listWithin_eq limit _, FiniteSource.take_tokens _, ?_, rfl, ?_, ?_,
    fun token token' differ same => differ (kind_eq_of_listing same)⟩
  · exact fun token mem => (intact_of_mem_tokenize mem).not_end
  · exact List.forall_mem_map.mpr fun token mem =>
      isLine_listing (intact_of_mem_tokenize mem).onOneLine
  · exact map_eq_map_congr fun token mem token' mem' => listing_eq_iff
      (intact_of_mem_tokenize mem).text_isSome (intact_of_mem_tokenize mem').text_isSome

/-- Both dashes, a backquote that is astray, and a quote left open with another behind it. -/
example : dumpLines "a - -1 `\n\"b`" = ["id `a`", "expr_op `-`", "-", "literal `1`",
    "[Lexer]: Unexpected characters ```", "[Lexer]: Unexpected characters `\"b``"] := by
  decide +kernel

end CommandLine

end ShiftReduce
