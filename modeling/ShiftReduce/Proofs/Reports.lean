import ShiftReduce.Proofs.CorrectPrefix
import ShiftReduce.Proofs.Lossless
import ShiftReduce.Proofs.Termination

/-!
What is reported of a parse. A parse that fails has met an unexpected token, the last one it has
pulled, so the line of the session and the line of the error are the same; that line, the parser's
name and the message of the error make up the one report. In a text the line is told by the newlines
in front of the token, or by all of them where the text ends too early.
-/

namespace ShiftReduce

/-! ### The line of a session -/

namespace Session

variable {σ : Type} [TokenSource σ]

/-- While a token is in the buffer, the session is on its line. -/
def OnLine (session : Session σ) : Prop := ∀ token ∈ session.lookahead, session.line = token.line

theorem OnLine.peek {session : Session σ} (onLine : OnLine session) :
    session.peek.2.line = session.peek.1.line := by
  obtain ⟨table, source, stack, _ | token, line, finished⟩ := session
  · rfl
  · exact onLine token rfl

theorem OnLine.step {session : Session σ} (unfinished : session.step.2.finished = false)
    (onLine : OnLine session) : OnLine session.step.2 := by
  intro token mem
  rw [line_step (unfinished_of_step unfinished), onLine.peek]
  obtain ⟨state, -, hstep⟩ | ⟨index, rule, children, below, state, -, -, -, -, hstep⟩ :=
    step_cases unfinished <;> rw [hstep] at mem
  · cases mem
  · change token ∈ session.peek.2.lookahead at mem
    rw [peek_lookahead] at mem
    rw [Option.some.inj mem]

/-- The step that ends a run looks at the first token behind those shifted. -/
theorem exists_last_step {table : Table} {source : σ} {limit : Nat}
    (ends : ((start table source).run limit).1 ≠ .unfinished) :
    ∃ n, ((start table source).after n).finished = false ∧
      (start table source).run limit = (outcomeOf ((start table source).after n).step.1,
        ((start table source).after n).step.2) ∧
      ((start table source).after n).peek.1 =
        TokenSource.tokenAt source ((start table source).shifted limit).length := by
  obtain ⟨n, hbefore, hrun, -, htaken⟩ := ended_run ends
  have hat := TokenSource.getElem?_take source
    (Nat.lt_succ_self ((start table source).shifted limit).length)
  rw [htaken, List.getElem?_concat_length] at hat
  exact ⟨n, hbefore, hrun, Option.some.inj hat⟩

/-- A run that ends is on the line of the last token it has pulled. -/
theorem line_of_ended_run {table : Table} {source : σ} {limit : Nat}
    (ends : ((start table source).run limit).1 ≠ .unfinished) :
    ((start table source).run limit).2.line =
      (TokenSource.tokenAt source ((start table source).shifted limit).length).line := by
  obtain ⟨n, hbefore, hrun, hlast⟩ := exists_last_step ends
  have hstart : OnLine (start table source) := fun _ mem => nomatch mem
  have honLine := after_induction (fun _ => OnLine.step) hstart n hbefore
  rw [hrun, line_step hbefore, honLine.peek, hlast]

end Session

/-! ### Failures -/

namespace Language

section Failures

variable {σ : Type} [TokenSource σ]

/-- A parse that fails has met the next token where it was not expected. -/
theorem failed_on_unexpected {source : σ} {limit : Nat} {error : ParseError}
    (failed : (parseWithin limit source).1 = .failed error) :
    ∃ expected, error = .unexpected (TokenSource.tokenAt source
      ((Session.start table source).shifted limit).length) expected := by
  have hended : ((Session.start table source).run limit).1 ≠ .unfinished := by
    rw [← parseWithin, failed]
    intro h
    cases h
  obtain ⟨n, hbefore, hrun, hlast⟩ := Session.exists_last_step hended
  rw [parseWithin, hrun, Session.outcomeOf_eq_failed] at failed
  have hanswer := (Session.Sound.after annotated source hbefore).answer
  rw [failed] at hanswer
  rw [← hlast]
  rcases hanswer with ⟨_, h⟩ | ⟨_, _, h⟩ | ⟨_, h, -⟩ | h
  · cases h
  · cases h
  · cases h
  · exact ⟨_, Except.error.inj h⟩

/-- The report of a failure is on the line of the unexpected token and comes from the parser. -/
theorem reports_of_failure {source : σ} {limit : Nat} {token : Token} {expected : List Terminal}
    (failed : (parseWithin limit source).1 = .failed (.unexpected token expected)) :
    parseReportingWithin limit source = (.failed (.unexpected token expected),
      [⟨token.line, .parser, ParseError.message (.unexpected token expected)⟩]) := by
  rw [parseReportingWithin]
  cases hparse : parseWithin limit source with
  | mk outcome session =>
    rw [hparse] at failed
    obtain rfl : outcome = _ := failed
    rfl

/-- Nothing is reported of success. -/
theorem reports_of_success {source : σ} {limit : Nat} {tree : ParseTree}
    (accepted : (parseWithin limit source).1 = .accepted tree) :
    parseReportingWithin limit source = (.accepted tree, []) := by
  rw [parseReportingWithin]
  cases hparse : parseWithin limit source with
  | mk outcome session =>
    rw [hparse] at accepted
    obtain rfl : outcome = _ := accepted
    rfl

end Failures

end Language

/-! ### Places in a text -/

namespace Lexer.Reads

variable {lexer : Lexer} {words : List Spaced} {last : List Char}

/-- The words are handed out in order. -/
theorem take_front (reads : Reads lexer words last) {front back : List Spaced} {word : Spaced}
    (split : words = front ++ word :: back) :
    (TokenSource.take lexer (front.length + 1)).1 = (front ++ [word]).map Spaced.token := by
  induction reads generalizing front with
  | done layout => cases front <;> cases split
  | @token lexer next gap token words last gives split' layout line_eq same_line intact reads ih =>
    have hnext : TokenSource.next lexer = (token, next) := gives
    cases front with
    | nil =>
      obtain ⟨rfl, -⟩ := List.cons.inj split
      rw [List.length_nil, TokenSource.take, hnext]
      rfl
    | cons first front =>
      obtain ⟨rfl, hwords⟩ := List.cons.inj split
      rw [List.length_cons, TokenSource.take, hnext, ih hwords]
      rfl

/-- What is handed out behind some tokens is the word behind theirs, or the end. -/
theorem tokenAt_cases (reads : Reads lexer words last) (index : Nat) :
    (∃ front word back, words = front ++ word :: back ∧ front.length = index ∧
      word.token = TokenSource.tokenAt lexer index) ∨
    TokenSource.tokenAt lexer index = .atEnd (lexer.line + lexer.rest.count '\n') := by
  obtain ⟨behind, -, htake⟩ := reads.take_eq index
  have hat := TokenSource.getElem?_take lexer
    (show index < words.length + (index + 1) by omega)
  rw [htake] at hat
  by_cases hlt : index < words.length
  · rw [List.getElem?_append_left (by rwa [List.length_map]), List.getElem?_map,
      List.getElem?_eq_getElem hlt] at hat
    refine Or.inl ⟨words.take index, words[index], words.drop (index + 1), ?_, ?_,
      Option.some.inj hat⟩
    · rw [← List.drop_eq_getElem_cons hlt, List.take_append_drop]
    · rw [List.length_take]
      exact Nat.min_eq_left (Nat.le_of_lt hlt)
  · rw [List.getElem?_append_right (by rw [List.length_map]; exact Nat.le_of_not_lt hlt)] at hat
    exact Or.inr (List.eq_of_mem_replicate (List.mem_of_getElem? hat))

/-- The line of a word is told by the newlines in front of its lexeme. -/
theorem line_of_split (reads : Reads lexer words last) (before : List Char)
    (line_eq : lexer.line = lineBehind before) {front back : List Spaced} {word : Spaced}
    (split : words = front ++ word :: back) :
    word.token.line = lineBehind (before ++ Spaced.text front ++ word.gap) := by
  have hline := Spaced.line_placed front word back before
  rw [← split, reads.placed_eq line_eq, split, List.map_append, List.map_cons,
    List.getElem?_append_right (Nat.le_of_eq (List.length_map _)), List.length_map, Nat.sub_self]
    at hline
  exact Option.some.inj hline

end Lexer.Reads

namespace Language

/-- Reporting changes no outcome, and reports a failure once and success never. The line is that of
the unexpected token, in a text told by the newlines in front of it. -/
theorem reported_once :
    (∀ {σ : Type} [TokenSource σ] (source : σ) {limit : Nat},
      (parseWithin limit source).1 ≠ .unfinished →
      (parseReportingWithin limit source).1 = (parseWithin limit source).1 ∧
      (∀ tree, (parseWithin limit source).1 = .accepted tree →
        (parseReportingWithin limit source).2 = []) ∧
      (∀ error, (parseWithin limit source).1 = .failed error →
        ∃ token expected, error = .unexpected token expected ∧
          (parseReportingWithin limit source).2 = [⟨token.line, .parser, error.message⟩] ∧
          (parseWithin limit source).2.line = token.line ∧
          (parseWithin limit ({ inner := source } : Recorded σ)).2.source.pulled.getLast? =
            some token) ∧
      ∀ more, limit ≤ more →
        parseReportingWithin more source = parseReportingWithin limit source) ∧
    ∀ text : String, ∃ (words : List Spaced) (last : List Char),
      text.toList = Spaced.text words ++ last ∧ words.map Spaced.token = tokenize text ∧
      (∀ word ∈ words, Layout word.gap) ∧ FinalLayout last ∧
      parseText text ≠ .unfinished ∧
      ∀ token expected, parseText text = .failed (.unexpected token expected) →
        parseReporting (Lexer.ofString text) = (.failed (.unexpected token expected),
          [⟨token.line, .parser, ParseError.message (.unexpected token expected)⟩]) ∧
        ((∃ front word back, words = front ++ word :: back ∧ word.token = token ∧
            (parseWithin (stepsFor (Lexer.ofString text))
              ({ inner := Lexer.ofString text } : Recorded Lexer)).2.source.pulled =
                (front ++ [word]).map Spaced.token ∧
            token.line = lineBehind (Spaced.text front ++ word.gap)) ∨
          token = .atEnd (lineBehind text.toList)) := by
  refine ⟨?_, ?_⟩
  · -- over any source, if the parse ends
    intro σ _ source limit ends
    refine ⟨?_, ?_, ?_, ?_⟩
    · cases hparse : (parseWithin limit source).1 with
      | accepted tree => rw [reports_of_success hparse]
      | failed error =>
        obtain ⟨expected, rfl⟩ := failed_on_unexpected hparse
        rw [reports_of_failure hparse]
      | unfinished => exact absurd hparse ends
    · intro tree accepted
      rw [reports_of_success accepted]
    · intro error failed
      obtain ⟨expected, rfl⟩ := failed_on_unexpected failed
      obtain ⟨-, -, -, -, hpulled⟩ := Session.rejected_run annotated failed
      refine ⟨_, expected, rfl, ?_, Session.line_of_ended_run ends, ?_⟩
      · rw [reports_of_failure failed]
      · rw [parseWithin, hpulled, List.getLast?_concat]
    · intro more le
      rw [parseReportingWithin, parseReportingWithin, parseWithin, parseWithin,
        Session.run_eq_of_le rfl ends le]
  · -- over a text, where it always ends
    intro text
    obtain ⟨words, last, hreads⟩ := Lexer.exists_reads (Lexer.ofString text)
    obtain ⟨hgaps, hlast⟩ := hreads.layouts
    have hends := parse_ne_unfinished (Lexer.ofString text)
    refine ⟨words, last, hreads.rest_eq, hreads.tokens_eq.symm, hgaps, hlast, hends, ?_⟩
    intro token expected failed
    obtain ⟨_, herror⟩ := failed_on_unexpected failed
    obtain ⟨rfl, -⟩ := ParseError.unexpected.inj herror
    refine ⟨reports_of_failure failed, ?_⟩
    have hplace := hreads.tokenAt_cases ((Session.start table (Lexer.ofString text)).shifted
      (stepsFor (Lexer.ofString text))).length
    rcases hplace with ⟨front, word, back, hsplit, hlength, htoken⟩ | hend
    · refine Or.inl ⟨front, word, back, hsplit, htoken, ?_, ?_⟩
      · rw [parseWithin, Session.pulled_run table _ hends, ← hlength, hreads.take_front hsplit]
      · rw [← htoken]
        exact hreads.line_of_split [] rfl hsplit
    · exact Or.inr hend

/-- The newline behind the remark counts, the one behind the unexpected token does not. -/
theorem reported_once_second_line :
    let text := "prog p # 1\n;\n"
    let error := ParseError.unexpected (.bare .semicolon 2) [.colon]
    parseText text = .failed error ∧
    parseReporting (Lexer.ofString text) = (.failed error, [⟨2, .parser, error.message⟩]) ∧
    ∃ front word back last, text.toList = Spaced.text (front ++ word :: back) ++ last ∧
      word.token = .bare .semicolon 2 ∧ lineBehind (Spaced.text front ++ word.gap) = 2 := by
  intro text error
  have hfails : parseText text = .failed error := by decide +kernel
  obtain ⟨words, last, htext, -, -, -, -, hreported⟩ := reported_once.2 text
  obtain ⟨hreports, ⟨front, word, back, hwords, htoken, -, hline⟩ | hend⟩ := hreported _ _ hfails
  · rw [hwords] at htext
    exact ⟨hfails, hreports, front, word, back, last, htext, htoken, hline.symm⟩
  · cases hend

end Language

end ShiftReduce
