import ShiftReduce.Proofs.Dashes
import ShiftReduce.Proofs.LongestMatch

/-!
The lexer reads line by line. A cut sees no more than the rest of its line: whatever stands behind
the next newline, the lexeme is the same. So a lexeme is cut off again wherever it is written, as
long as its line goes on no further than it did, and all that the lexer carries over a newline is
the line it has reached and the kind of the token before, which signs a dash. The tokens of two
texts with a newline between them are those of the one and then those of the other, further down.
-/

namespace ShiftReduce

/-! ### The line in front -/

/-- The text up to its first newline. -/
def firstLine (text : List Char) : List Char := text.takeWhile (· != '\n')

theorem isLine_firstLine (text : List Char) : IsLine (firstLine text) := isLine_takeWhile rfl text

/-- What begins a text and holds no newline begins its first line. -/
theorem IsLine.prefix_firstLine {front text : List Char} (isLine : IsLine front)
    (begins : front <+: text) : front <+: firstLine text := by
  obtain ⟨behind, rfl⟩ := begins
  rw [firstLine, List.takeWhile_append_of_pos isLine.all_ne]
  exact List.prefix_append _ _

theorem firstLine_append {front behind : List Char} (isLine : IsLine front)
    (stops : ∀ c ∈ behind.head?, c = '\n') : firstLine (front ++ behind) = front :=
  (span_stops behind isLine.all_ne fun c mem => by rw [stops c mem]; rfl).1

/-- A newline ends the line. -/
theorem firstLine_prefix_of_newline (text more : List Char) :
    firstLine (text ++ '\n' :: more) <+: text := by
  have hstops : ('\n' :: more).takeWhile (· != '\n') = [] := rfl
  rw [firstLine, List.takeWhile_append, hstops, List.append_nil]
  split
  · exact List.prefix_refl text
  · exact List.takeWhile_prefix _

/-- Layout to the end of a text is closed by a newline. -/
theorem FinalLayout.newline {text : List Char} (layout : FinalLayout text) :
    Layout (text ++ ['\n']) := by
  cases layout with
  | closed layout => exact layout.append (.newline .nil)
  | comment layout isLine =>
    rw [List.append_assoc]
    exact layout.append (.comment isLine .nil)

/-! ### Cut off again -/

namespace Pattern

variable {piece : Piece} {first : Char} {more text : List Char}

/-- No pattern of a token reaches over a newline. -/
theorem Matches.isLine (h : Matches piece (first :: more)) (plain : first ∉ layoutChars) :
    IsLine (first :: more) := by
  obtain ⟨kind, htoken⟩ := Cut.exists_isToken none plain more
  rcases Cut.asDeclared_of_plain plain more with hchosen | ⟨hunmatched, -⟩
  · have hlength := hchosen.longest _ _ (List.prefix_refl _) h
    rw [← hchosen.begins.eq_of_length_le hlength]
    exact htoken.isLine
  · exact absurd h (hunmatched _ _ (List.prefix_refl _))

/-- What matches in front of a text matches in front of any that begins with the same line. -/
theorem Matches.begins_line {front other : List Char} (h : Matches piece front)
    (plain : first ∉ layoutChars) (begins : front <+: first :: other)
    (line : firstLine (first :: other) <+: text) : front <+: text := by
  obtain ⟨more, rfl, -⟩ := h.exists_cons begins
  exact ((h.isLine plain).prefix_firstLine begins).trans line

/-- What stands astray is the same where the text begins with it and its line goes on no further. -/
theorem Astray.eq_of_line {other lexeme word : List Char} (astray : Astray (first :: text) lexeme)
    (astrayOther : Astray (first :: other) word) (begins : lexeme <+: first :: other)
    (line : firstLine (first :: other) <+: first :: text) : word = lexeme := by
  have hlexeme := astray.lexeme_eq
  have hword := astrayOther.lexeme_eq
  by_cases hquote : first = '"'
  · -- an open quote takes the whole line, and both lines begin one another
    subst hquote
    change lexeme = firstLine ('"' :: text) at hlexeme
    change word = firstLine ('"' :: other) at hword
    subst hlexeme hword
    have hle := (isLine_firstLine _).prefix_firstLine line
    have hge := (isLine_firstLine _).prefix_firstLine begins
    exact hle.eq_of_length_le hge.length_le
  · have hhead : ∀ behind, (first :: behind).head? ≠ some '"' := fun behind h =>
      hquote (Option.some.inj h)
    rw [hlexeme, hword, if_neg (hhead _), if_neg (hhead _)]
    rfl

end Pattern

namespace Cut

open Pattern

variable {first : Char} {text other : List Char}

/-- A cut is the same where the text begins with the same lexeme and its line goes on no further. -/
theorem of_line (plain : first ∉ layoutChars) (begins : (of first text).lexeme <+: first :: other)
    (line : firstLine (first :: other) <+: first :: text) :
    (of first other).piece = (of first text).piece ∧
      (of first other).lexeme = (of first text).lexeme := by
  rcases asDeclared_of_plain plain text with hchosen | ⟨hunmatched, hastray, hpiece⟩
  · -- a longer match in front of the other text would be one in front of this
    have hother : Chosen (first :: other) (of first text).piece (of first text).lexeme :=
      { hchosen with
        begins
        longest := fun piece front hfront h =>
          hchosen.longest piece front (h.begins_line plain hfront line) h }
    rcases asDeclared_of_plain plain other with hcut | ⟨hunmatched, -⟩
    · exact hcut.unique hother
    · exact absurd hunmatched hother.not_unmatched
  · have hother : Unmatched (first :: other) := fun piece front hfront h =>
      hunmatched piece front (h.begins_line plain hfront line) h
    rcases asDeclared_of_plain plain other with hcut | ⟨-, hastrayOther, hpieceOther⟩
    · exact absurd hother hcut.not_unmatched
    · exact ⟨hpieceOther.trans hpiece.symm, hastray.eq_of_line hastrayOther begins line⟩

/-- A lexeme is cut off again in front of any rest with which its line goes on no further. -/
theorem exists_of_line (plain : first ∉ layoutChars) {rest : List Char}
    (line : firstLine ((of first text).lexeme ++ rest) <+: first :: text) :
    ∃ other, (of first text).lexeme ++ rest = first :: other ∧
      of first other = ⟨(of first text).piece, (of first text).lexeme, rest⟩ := by
  obtain ⟨more, hmore⟩ := List.head?_eq_some_iff.mp (head?_lexeme first text)
  have hother : (of first text).lexeme ++ rest = first :: (more ++ rest) := by
    rw [hmore, List.cons_append]
  have hbegins := List.prefix_append (of first text).lexeme rest
  rw [hother] at line hbegins
  obtain ⟨hpiece, hlexeme⟩ := of_line plain hbegins line
  have hwhole := lexeme_append_rest first (more ++ rest)
  rw [hlexeme, ← hother] at hwhole
  refine ⟨more ++ rest, hother, ?_⟩
  calc of first (more ++ rest)
      = ⟨(of first (more ++ rest)).piece, (of first (more ++ rest)).lexeme,
          (of first (more ++ rest)).rest⟩ := rfl
    _ = ⟨(of first text).piece, (of first text).lexeme, rest⟩ := by
        rw [hpiece, hlexeme, List.append_cancel_left hwhole]

/-- Only a dash is cut off as one. -/
theorem piece_eq_dash_iff (plain : first ∉ layoutChars) :
    (of first text).piece = .dash ↔ (of first text).lexeme = ['-'] := by
  constructor
  · intro hpiece
    have hspellings : ∀ entry ∈ spellings, entry.2 = .dash → entry.1 = ['-'] := by decide
    rcases asDeclared_of_plain plain text with hchosen | ⟨-, -, hunknown⟩
    · rcases hchosen.matched with hspelled | hclass
      · exact hspellings _ hspelled hpiece
      · rw [hpiece] at hclass
        rcases inClass_iff.mp hclass with ⟨h, -⟩ | ⟨h, -⟩ | ⟨h, -⟩ <;> cases h
    · rw [hpiece] at hunknown
      cases hunknown
  · exact piece_of_dash

end Cut

theorem Piece.kind?_of_ne_dash {piece : Piece} (plain : piece ≠ .dash)
    (previous other : Option Terminal) : piece.kind? previous = piece.kind? other := by
  cases piece with
  | dash => exact absurd rfl plain
  | layout => rfl
  | newline => rfl
  | token kind => rfl

/-! ### Read again -/

namespace Token

/-- The token as it is read behind a token of the given kind, which signs a dash. -/
def behind (previous : Option Terminal) (token : Token) : Token :=
  if token.lexeme = "-" then .dash (dashKind previous) token.line else token

/-- The token on a line further down. -/
def lower (lines : Nat) (token : Token) : Token := { token with line := token.line + lines }

theorem behind_of_dash {token : Token} (dashed : token.lexeme = "-") (previous : Option Terminal) :
    token.behind previous = .dash (dashKind previous) token.line := if_pos dashed

theorem behind_of_ne {token : Token} (plain : token.lexeme ≠ "-") (previous : Option Terminal) :
    token.behind previous = token := if_neg plain

theorem line_behind (token : Token) (previous : Option Terminal) :
    (token.behind previous).line = token.line := by
  rw [behind]
  split <;> rfl

theorem behind_ne_end {token : Token} (not_end : token.kind ≠ .endOfInput)
    (previous : Option Terminal) : (token.behind previous).kind ≠ .endOfInput := by
  have hdash : dashKind previous ≠ .endOfInput := by
    rw [dashKind_eq]
    split <;> nofun
  rw [behind]
  split
  · exact hdash
  · exact not_end

theorem lower_behind (lines : Nat) (token : Token) (previous : Option Terminal) :
    (token.behind previous).lower lines = (token.lower lines).behind previous := by
  by_cases hdash : token.lexeme = "-"
  · have hlower : (token.lower lines).lexeme = "-" := hdash
    rw [behind_of_dash hdash, behind_of_dash hlower]
    rfl
  · have hlower : (token.lower lines).lexeme ≠ "-" := hdash
    rw [behind_of_ne hdash, behind_of_ne hlower]

end Token

namespace Lexer

variable {lexer next : Lexer} {token : Token} {words : List Spaced} {last : List Char}

/-- The token before has already signed a dash that was read behind it. -/
theorem behind_of_next (gives : lexer.next = (token, next)) (intact : token.Intact) :
    token.behind lexer.previous = token := by
  by_cases hdash : token.lexeme = "-"
  · rw [Token.behind_of_dash hdash, ← (kind_of_next gives intact.not_end).2 hdash]
    exact (intact.eq_dash hdash).symm
  · exact Token.behind_of_ne hdash _

/-- No dash ends an operand, so behind a dash of either kind another one negates. -/
theorem dashKind_behind (gives : lexer.next = (token, next)) (intact : token.Intact)
    (previous : Option Terminal) :
    dashKind (some (token.behind previous).kind) = dashKind next.previous := by
  have hdash : ∀ before, dashKind (some (dashKind before)) = .minus := by
    intro before
    rw [dashKind_eq before]
    split <;> rfl
  obtain ⟨hprevious, hkind⟩ := kind_of_next gives intact.not_end
  rw [hprevious]
  by_cases hdashed : token.lexeme = "-"
  · rw [Token.behind_of_dash hdashed, hkind hdashed, hdash]
    exact hdash previous
  · rw [Token.behind_of_ne hdashed]

/-- What was cut off is given out again behind any layout and in front of any rest with which its
line goes on no further, as the kind that the piece now is. -/
theorem next_of_cut {first : Char} {text gap rest : List Char} (plain : first ∉ layoutChars)
    (layout : Layout gap)
    (line : firstLine ((Cut.of first text).lexeme ++ rest) <+: first :: text)
    {previous : Option Terminal} {kind : Terminal}
    (isKind : (Cut.of first text).piece.kind? previous = some kind) (at_line : Nat) :
    (⟨gap ++ ((Cut.of first text).lexeme ++ rest), at_line, previous⟩ : Lexer).next =
      (⟨kind, if kind.carriesText then some (String.ofList (Cut.of first text).lexeme) else none,
        at_line + gap.count '\n'⟩, ⟨rest, at_line + gap.count '\n', some kind⟩) := by
  obtain ⟨other, hother, hcut⟩ := Cut.exists_of_line plain line
  have hkind : (Cut.of first other).piece.kind? previous = some kind := by rw [hcut, isKind]
  rw [next_append _ _ layout, hother, next_token _ _ hkind, hcut]
  rfl

/-- A token is read again behind any layout and in front of any rest with which its line goes on no
further; a dash is signed by the token that is now before it. -/
theorem next_again (gives : lexer.next = (token, next)) (intact : token.Intact)
    {gap rest : List Char} (layout : Layout gap)
    (ends : firstLine (token.lexeme.toList ++ rest) <+: token.lexeme.toList ++ next.rest)
    (line : Nat) (previous : Option Terminal) :
    (⟨gap ++ (token.lexeme.toList ++ rest), line, previous⟩ : Lexer).next =
      ({ token.behind previous with line := line + gap.count '\n' },
        ⟨rest, line + gap.count '\n', some (token.behind previous).kind⟩) := by
  obtain ⟨first, text, htoken, hlexeme, hrest, -⟩ := cut_of_next gives intact.not_end
  rw [hlexeme, hrest, Cut.lexeme_append_rest] at ends
  rw [hlexeme]
  by_cases hdashed : token.lexeme = "-"
  · have hdash : (Cut.of first text).lexeme = ['-'] := by
      rw [← hlexeme, hdashed]
      rfl
    have hkind : (Cut.of first text).piece.kind? previous = some (dashKind previous) := by
      rw [Cut.piece_of_dash hdash]
      rfl
    rw [next_of_cut htoken.plain layout ends hkind, hdash, Token.behind_of_dash hdashed]
    rfl
  · have hdash : (Cut.of first text).piece ≠ .dash := by
      rw [Ne, Cut.piece_eq_dash_iff htoken.plain, ← hlexeme]
      exact fun h => hdashed (String.toList_inj.mp h)
    have hkind : (Cut.of first text).piece.kind? previous = some token.kind := by
      rw [← htoken.kind_eq, Piece.kind?_of_ne_dash hdash]
    rw [next_of_cut htoken.plain layout ends hkind, ← hlexeme, Token.behind_of_ne hdashed,
      Token.eq_given intact.text_isSome]

/-! ### Reading on behind a newline -/

/-- The tokens of a lexer are told by the next of them. -/
theorem tokens_congr {other : Lexer} (same : lexer.next = other.next) :
    FiniteSource.tokens lexer = FiniteSource.tokens other := by
  have hsame : TokenSource.next lexer = TokenSource.next other := same
  rw [FiniteSource.tokens, hsame]
  exact (FiniteSource.tokens.eq_1 other).symm

theorem tokens_final (layout : FinalLayout lexer.rest) : FiniteSource.tokens lexer = [] :=
  (Reads.done layout).tokens_eq

/-- In front of a newline a text is read as by itself, and then the lexer goes on behind it. -/
theorem Reads.tokens_newline (reads : Reads lexer words last) (back : List Char) :
    FiniteSource.tokens { lexer with rest := lexer.rest ++ '\n' :: back } =
      words.map Spaced.token ++ FiniteSource.tokens
        (⟨back, lexer.line + lexer.rest.count '\n' + 1,
          (words.getLast?.map fun word => word.token.kind).or lexer.previous⟩ : Lexer) := by
  induction reads with
  | @done lexer layout =>
    refine tokens_congr ?_
    have hnext := next_append lexer.line lexer.previous layout.newline back
    rw [List.append_assoc, List.singleton_append, List.count_append, ← Nat.add_assoc] at hnext
    exact hnext
  | @token lexer next gap token words last gives split layout line_eq same_line intact reads ih =>
    have hline : firstLine (token.lexeme.toList ++ (next.rest ++ '\n' :: back)) <+:
        token.lexeme.toList ++ next.rest := by
      rw [← List.append_assoc]
      exact firstLine_prefix_of_newline _ _
    have hnext := next_again gives intact layout hline lexer.line lexer.previous
    rw [behind_of_next gives intact, ← line_eq, ← List.append_assoc, ← List.append_assoc,
      ← split] at hnext
    rw [tokens_cons hnext intact.not_end, lastKind_next gives intact.not_end,
      ← last_line_next split line_eq same_line intact.isLine, List.map_cons, List.cons_append, ← ih,
      (kind_of_next gives intact.not_end).1, same_line]

/-- Further down, and behind another token, the next token is the same but for its line and the
sign of a dash. -/
theorem next_lower (gives : lexer.next = (token, next)) (intact : token.Intact) {gap : List Char}
    (split : lexer.rest = gap ++ token.lexeme.toList ++ next.rest) (layout : Layout gap)
    (line_eq : token.line = lexer.line + gap.count '\n') (same_line : next.line = token.line)
    (lines : Nat) (previous : Option Terminal) :
    (⟨lexer.rest, lexer.line + lines, previous⟩ : Lexer).next =
      ((token.lower lines).behind previous,
        ⟨next.rest, next.line + lines, some (token.behind previous).kind⟩) := by
  have hnext := next_again gives intact layout (List.takeWhile_prefix _) (lexer.line + lines)
    previous
  rw [← List.append_assoc, ← split, Nat.add_right_comm, ← line_eq] at hnext
  rw [hnext, ← Token.lower_behind, Token.lower, Token.line_behind, same_line]

/-- Further down, and behind a token that signs a dash as the token before does, the tokens are the
same but for their lines. -/
theorem Reads.tokens_lower (reads : Reads lexer words last) (lines : Nat)
    {previous : Option Terminal} (same : dashKind previous = dashKind lexer.previous) :
    FiniteSource.tokens (⟨lexer.rest, lexer.line + lines, previous⟩ : Lexer) =
      (words.map Spaced.token).map (Token.lower lines) := by
  induction reads generalizing previous with
  | done layout => exact tokens_final layout
  | @token lexer next gap token words last gives split layout line_eq same_line intact reads ih =>
    have hnext := next_lower gives intact split layout line_eq same_line lines previous
    have hsame : token.behind previous = token := by
      rw [Token.behind, same]
      exact behind_of_next gives intact
    rw [← Token.lower_behind, hsame] at hnext
    have hprevious : dashKind (some token.kind) = dashKind next.previous := by
      rw [(kind_of_next gives intact.not_end).1]
    rw [tokens_cons hnext intact.not_end, ih hprevious, List.map_cons, List.map_cons]

/-- Further down, and behind another token, the tokens are the same but for their lines and the sign
of a dash that is the first of them. -/
theorem Reads.tokens_behind (reads : Reads lexer words last) (lines : Nat)
    (previous : Option Terminal) :
    FiniteSource.tokens (⟨lexer.rest, lexer.line + lines, previous⟩ : Lexer) =
      ((words.map Spaced.token).map (Token.lower lines)).modifyHead (Token.behind previous) := by
  cases reads with
  | done layout => exact tokens_final layout
  | @token _ next gap token words _ gives split layout line_eq same_line intact reads =>
    have hnext := next_lower gives intact split layout line_eq same_line lines previous
    have hlower : (token.lower lines).kind ≠ .endOfInput := intact.not_end
    rw [tokens_cons hnext (Token.behind_ne_end hlower previous),
      reads.tokens_lower lines (dashKind_behind gives intact previous),
      List.map_cons, List.map_cons, List.modifyHead_cons]

end Lexer

/-- A newline parts the tokens of two texts: those of the second only move down, but for a dash in
front, which depends on the last token of the first. -/
theorem tokenize_newline (front back : String) :
    tokenize (front ++ "\n" ++ back) = tokenize front ++
        ((tokenize back).map (Token.lower (lineBehind front.toList))).modifyHead
          (Token.behind ((tokenize front).getLast?.map Token.kind)) ∧
      (tokenize front = [] → tokenize (front ++ "\n" ++ back) =
        (tokenize back).map (Token.lower (lineBehind front.toList))) := by
  obtain ⟨words, last, hfront⟩ := Lexer.exists_reads (Lexer.ofString front)
  obtain ⟨others, _, hback⟩ := Lexer.exists_reads (Lexer.ofString back)
  have hwords : tokenize front = words.map Spaced.token := hfront.tokens_eq
  have hothers : tokenize back = others.map Spaced.token := hback.tokens_eq
  have htext : (front ++ "\n" ++ back).toList = front.toList ++ '\n' :: back.toList := by
    rw [String.toList_append, String.toList_append, List.append_assoc]
    rfl
  have hwhole : tokenize (front ++ "\n" ++ back) = words.map Spaced.token ++
      FiniteSource.tokens (⟨back.toList, 1 + lineBehind front.toList,
        words.getLast?.map fun word => word.token.kind⟩ : Lexer) := by
    have hnewline := hfront.tokens_newline back.toList
    rw [tokenize, Lexer.ofString, htext]
    rwa [show (Lexer.ofString front).previous = none from rfl, Option.or_none, Nat.add_right_comm,
      Nat.add_assoc] at hnewline
  have hlast : (tokenize front).getLast?.map Token.kind =
      words.getLast?.map fun word => word.token.kind := by
    rw [hwords, List.getLast?_map, Option.map_map]
    rfl
  refine ⟨?_, fun hnone => ?_⟩
  · rw [hlast, hwords, hothers, hwhole]
    exact congrArg _ (hback.tokens_behind _ _)
  · obtain rfl : words = [] := List.map_eq_nil_iff.mp (hwords.symm.trans hnone)
    rw [hothers, hwhole]
    exact hback.tokens_lower _ rfl

/-- A quote stays open to the end of its line, and the dash on the next has no operand before it. -/
example : tokenize "\"a\n-1" =
    [⟨.unknown, some "\"a", 1⟩, ⟨.minus, none, 2⟩, ⟨.literal, some "1", 2⟩] := by decide +kernel

end ShiftReduce
