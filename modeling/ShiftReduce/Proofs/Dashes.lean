import ShiftReduce.Proofs.RoundTrip
import ShiftReduce.Proofs.Termination

/-!
The sign of a dash. The lexer settles whether a dash subtracts or negates from the one token before
it, and the grammar from a whole derivation, but they agree: behind the same tokens only one kind of
dash passes, and it is the lexer's. So however the dashes of a text are read, the tokens are those
of a program only if they are the lexer's own, and then the parser accepts them.
-/

namespace ShiftReduce

/-- A dash read as a token of the given kind, with its text where the kind carries one. -/
def Token.dash (kind : Terminal) (line : Nat) : Token :=
  ⟨kind, if kind.carriesText then some "-" else none, line⟩

/-- The same tokens but that each dash may be read anew, as either of its kinds. -/
inductive Rereading : List Token → List Token → Prop
  | nil : Rereading [] []
  | keep (token : Token) {tokens others : List Token} (rest : Rereading tokens others) :
      Rereading (token :: tokens) (token :: others)
  | dash {token : Token} {kind : Terminal} {tokens others : List Token}
      (dashed : token.lexeme = "-") (signed : kind = .addOp ∨ kind = .minus)
      (rest : Rereading tokens others) :
      Rereading (token :: tokens) (.dash kind token.line :: others)

theorem Token.Intact.eq_dash {token : Token} (intact : token.Intact)
    (dashed : token.lexeme = "-") : token = .dash token.kind token.line := by
  have htext := intact.text_isSome
  obtain ⟨kind, _ | text, line⟩ := token
  · change false = kind.carriesText at htext
    rw [Token.dash, ← htext]
    rfl
  · change true = kind.carriesText at htext
    rw [Token.dash, ← htext, if_pos rfl]
    exact congrArg (fun text => (⟨kind, some text, line⟩ : Token)) dashed

/-! ### The lexer's choice -/

/-- No operator of two characters begins with a dash. -/
theorem Cut.piece_dash (text : List Char) : (Cut.of '-' text).piece = .dash := by
  change (operator '-' text).piece = .dash
  cases text with
  | nil => rfl
  | cons second rest =>
    have hplain : ∀ entry ∈ longOperators, entry.1.head? ≠ some '-' := by decide
    rw [operator]
    split
    · rename_i kind hlookup
      exact absurd rfl (hplain _ (mem_of_lookup hlookup))
    · rfl

theorem Cut.piece_of_dash {first : Char} {text : List Char}
    (h : (Cut.of first text).lexeme = ['-']) : (Cut.of first text).piece = .dash := by
  have hfirst := Cut.head?_lexeme first text
  rw [h] at hfirst
  obtain rfl : '-' = first := Option.some.inj hfirst
  exact Cut.piece_dash text

namespace Lexer

/-- The lexer remembers the kind of the token it has given out, and if that was a dash, the token
before has settled its kind. -/
theorem kind_of_next {lexer next : Lexer} {token : Token} (gives : lexer.next = (token, next))
    (not_end : token.kind ≠ .endOfInput) :
    next.previous = some token.kind ∧
      (token.lexeme = "-" → token.kind = dashKind lexer.previous) := by
  obtain ⟨first, text, htoken, hlexeme, -, hprevious⟩ := cut_of_next gives not_end
  refine ⟨hprevious, fun dashed => ?_⟩
  rw [dashed] at hlexeme
  have hkind := htoken.kind_eq
  rw [Cut.piece_of_dash hlexeme.symm] at hkind
  exact (Option.some.inj hkind).symm

/-- Tokens that pass, with the dashes of a text read in whatever way, are those of the lexer. -/
theorem Reads.eq_of_rereading {lexer : Lexer} {words : List Spaced} {last : List Char}
    (reads : Reads lexer words last) {others : List Token}
    (rereading : Rereading (words.map Spaced.token) others) {result : Bool}
    (passes : ((others.map Token.kind).map Symbol.terminal).foldlM Language.pass
      (lexer.previous.any endsOperand) = some result) :
    others = words.map Spaced.token := by
  induction reads generalizing others with
  | done layout =>
    cases rereading
    rfl
  | @token lexer next gap token words last gives split layout line_eq same_line intact reads ih =>
    obtain ⟨hprevious, hdash⟩ := kind_of_next gives intact.not_end
    -- once the first token is the same, both go on from it
    have hrest : ∀ {others}, Rereading (words.map Spaced.token) others →
        (((token :: others).map Token.kind).map Symbol.terminal).foldlM Language.pass
          (lexer.previous.any endsOperand) = some result →
        token :: others = (⟨gap, token⟩ :: words).map Spaced.token := by
      intro others rest passes
      obtain ⟨-, hpasses⟩ := Language.pass_terminal_cons passes
      have hnext : next.previous.any endsOperand = endsOperand token.kind := by rw [hprevious]; rfl
      rw [← hnext] at hpasses
      rw [ih rest hpasses, List.map_cons]
    cases rereading with
    | keep _ rest => exact hrest rest passes
    | @dash _ kind _ others dashed signed rest =>
      have hfits := (Language.pass_terminal_cons passes).1
      have hkind : kind = token.kind := by
        rw [hdash dashed]
        exact (dashKind_of_fits signed hfits).symm
      rw [hkind, ← intact.eq_dash dashed] at passes ⊢
      exact hrest rest passes

end Lexer

/-! ### Parsing a finite source -/

namespace Language

/-- The leaves of a program are accepted from whatever finite source they come. -/
theorem parse_of_leaves {σ : Type} [FiniteSource σ] {source : σ} {tree : ParseTree}
    (program : IsProgramTree tree) (leaves : tree.leaves = FiniteSource.tokens source) :
    parse source = .accepted tree := by
  obtain ⟨last, hlast, htake⟩ := FiniteSource.take_tokens source
  rw [← leaves] at htake
  refine accepts_derivation program hlast htake ?_
  have hsize := size_le program
  have hlength := FiniteSource.length_tokens_le source
  rw [← leaves] at hlength
  change tree.size < 7 * FiniteSource.remaining source + 1
  omega

/-- If the dashes of a text can be read so that the tokens are of the kinds of a program, then the
lexer reads them so, and that program is parsed. -/
theorem eq_tokenize_of_program {text : String} {others : List Token}
    (rereading : Rereading (tokenize text) others) (program : IsProgram (others.map Token.kind)) :
    others = tokenize text ∧
      ∃ tree, IsProgramTree tree ∧ tree.leaves = others ∧ parseText text = .accepted tree := by
  obtain ⟨tree, hprogram, hleaves⟩ := program.exists_tree
  obtain ⟨words, last, hreads⟩ := Lexer.exists_reads (Lexer.ofString text)
  have htokens : tokenize text = words.map Spaced.token := hreads.tokens_eq
  have hpasses := pass_program hprogram
  rw [ParseTree.kinds, hleaves] at hpasses
  rw [htokens] at rereading
  have hothers : others = tokenize text := by
    rw [htokens]
    exact hreads.eq_of_rereading rereading hpasses
  exact ⟨hothers, tree, hprogram, hleaves, parse_of_leaves hprogram (hleaves.trans hothers)⟩

/-- The first of two dashes subtracts and the second negates. -/
theorem eq_tokenize_of_program_dashes :
    let text := "prog p: set x = a - -7; done :)"
    Rereading (tokenize text) dashProgram.leaves ∧
    IsProgram (dashProgram.leaves.map Token.kind) ∧
    dashProgram.leaves = tokenize text ∧
    ∃ tree, tree.leaves = dashProgram.leaves ∧ parseText text = .accepted tree := by
  intro text
  have htokens : tokenize text = dashProgram.leaves := by decide +kernel
  have hrereading : Rereading (tokenize text) dashProgram.leaves := by
    rw [htokens]
    exact .keep _ (.keep _ (.keep _ (.keep _ (.keep _ (.keep _ (.keep _
      (.dash rfl (Or.inl rfl) (.dash rfl (Or.inr rfl)
        (.keep _ (.keep _ (.keep _ (.keep _ .nil))))))))))))
  have hprogram : IsProgram (dashProgram.leaves.map Token.kind) :=
    ⟨dashProgram, (show IsProgramTree dashProgram by decide).1, rfl, rfl⟩
  obtain ⟨hsame, tree, -, hleaves, hparse⟩ := eq_tokenize_of_program hrereading hprogram
  exact ⟨hrereading, hprogram, hsame, tree, hleaves, hparse⟩

end Language

end ShiftReduce
