import ShiftReduce.Proofs.Acceptance
import ShiftReduce.Proofs.Soundness

/-!
Where a parse fails. Everything shifted up to a failure is the beginning of a program, since what
is on the stack can be completed, and with the unexpected token behind it it is not, since on any
program the table's answers would have been the same up to that token and gone on. So reductions
that a finer table would have left out never let a wrong token through.
-/

namespace ShiftReduce

namespace Session

variable {σ : Type} [TokenSource σ]

/-- The unexpected token that a step reports is the one it has looked at, and expected is what the
state on top has an entry for. -/
theorem peek_of_unexpected {session : Session σ} (unfinished : session.finished = false)
    {token : Token} {expected : List Terminal}
    (fails : outcomeOf session.step.1 = .failed (.unexpected token expected)) :
    session.peek.1 = token ∧ expected = session.table.expected session.stack.topState ∧
      session.table.action session.stack.topState token.kind = .error := by
  have heffect := effect_step unfinished
  rw [← peek_table session, ← peek_stack session]
  generalize session.step = result at heffect fails
  cases heffect with
  | shift action => cases fails
  | reduce action lookup pops goto => cases fails
  | accept action takes => cases fails
  | reject action =>
    obtain ⟨rfl, rfl⟩ := ParseError.unexpected.inj (Outcome.failed.inj fails)
    exact ⟨rfl, rfl, action⟩
  | unknownRule action lookup => cases fails
  | popFault action lookup pops => cases fails
  | missingGoto action lookup pops goto => cases fails
  | takeFault action takes => cases fails

/-- A run that reports an unexpected token comes by shifts and reductions to a state that has no
entry for it, and reports the entries that this state has. -/
theorem rejected_at {table : Table} {source : σ} {limit : Nat} {token : Token}
    {expected : List Terminal}
    (fails : ((start table source).run limit).1 = .failed (.unexpected token expected)) :
    ∃ n, ((start table source).after n).finished = false ∧
      ((start table source).after n).peek.1 = token ∧
      expected = table.expected ((start table source).after n).stack.topState ∧
      table.action ((start table source).after n).stack.topState token.kind = .error ∧
      (start table source).shifted n = (start table source).shifted limit ∧
      (TokenSource.take source (((start table source).shifted limit).length + 1)).1 =
        (start table source).shifted limit ++ [token] := by
  have hended : ((start table source).run limit).1 ≠ .unfinished := by
    rw [fails]
    exact nofun
  obtain ⟨n, hbefore, hrun, hleaves, htaken⟩ := ended_run hended
  rw [hrun] at fails
  obtain ⟨hpeek, hexpected, haction⟩ := peek_of_unexpected hbefore fails
  have htable : ((start table source).after n).table = table := table_after _ n
  rw [htable] at hexpected haction
  rw [hpeek] at htaken
  refine ⟨n, hbefore, hpeek, hexpected, haction, ?_, htaken⟩
  rw [← hleaves, leaves_after n hbefore]
  rfl

/-- A run that reports an unexpected token has reached it by shifts and reductions on a sound
session. It is the first token behind those shifted, and the last one pulled. -/
theorem rejected_run {table : Table} {kernel : Nat → List Item} {goal : Nonterminal} {final : Nat}
    (annotated : Annotated table kernel goal final) {source : σ} {limit : Nat} {token : Token}
    {expected : List Terminal}
    (fails : ((start table source).run limit).1 = .failed (.unexpected token expected)) :
    ∃ n, Sound kernel goal final ((start table source).after n) ∧
      ParseTree.leavesAll ((start table source).after n).stack.trees =
        (start table source).shifted limit ∧
      (TokenSource.take source (((start table source).shifted limit).length + 1)).1 =
        (start table source).shifted limit ++ [token] ∧
      ((start table ({ inner := source } : Recorded σ)).run limit).2.source.pulled =
        (start table source).shifted limit ++ [token] := by
  have hended : ((start table source).run limit).1 ≠ .unfinished := by
    rw [fails]
    exact nofun
  obtain ⟨n, hbefore, -, -, -, hshifted, htaken⟩ := rejected_at fails
  refine ⟨n, Sound.after annotated source hbefore, ?_, htaken, ?_⟩
  · rw [leaves_after n hbefore, hshifted]
    rfl
  · rw [pulled_run table source hended, htaken]

end Session

namespace Language

variable {σ : Type} [TokenSource σ]

/-- A kind can follow when some program has it next, or ends where it is the end of the input. -/
theorem canFollow_iff {kinds : List Terminal} {kind : Terminal} :
    CanFollow kinds kind ↔ ∃ rest, rest.headD .endOfInput = kind ∧ IsProgram (kinds ++ rest) := by
  constructor
  · intro follows
    rw [CanFollow] at follows
    split at follows
    · rename_i hend
      exact ⟨[], hend.symm, by rwa [List.append_nil]⟩
    · obtain ⟨more, hmore⟩ := follows
      rw [List.append_assoc] at hmore
      exact ⟨_, rfl, hmore⟩
  · rintro ⟨rest, hnext, tree, hderivation, hsymbol, hkinds⟩
    cases rest with
    | nil =>
      obtain rfl : Terminal.endOfInput = kind := hnext
      rw [CanFollow, if_pos rfl]
      rw [List.append_nil] at hkinds
      exact ⟨tree, hderivation, hsymbol, hkinds⟩
    | cons first rest =>
      obtain rfl : first = kind := hnext
      have hnamed : first ≠ .endOfInput := by
        have hmem : first ∈ tree.kinds := by simp [hkinds]
        obtain ⟨token, htoken, rfl⟩ := List.mem_map.mp hmem
        exact leaves_ne_end ⟨hderivation, hsymbol⟩ token htoken
      rw [CanFollow, if_neg hnamed]
      refine ⟨rest, tree, hderivation, hsymbol, ?_⟩
      rw [hkinds, List.append_assoc]
      rfl

theorem CanFollow.isProgramStart {kinds : List Terminal} {kind : Terminal}
    (follows : CanFollow kinds kind) : IsProgramStart kinds := by
  obtain ⟨rest, -, hprogram⟩ := canFollow_iff.mp follows
  exact ⟨rest, hprogram⟩

/-- Some kind that the state on top has an entry for can follow what has been shifted. -/
theorem exists_canFollow {source : σ} {n : Nat}
    (unfinished : ((Session.start table source).after n).finished = false) :
    ∃ kind ∈ table.expected ((Session.start table source).after n).stack.topState,
      CanFollow (((Session.start table source).shifted n).map Token.kind) kind := by
  have hsound := Session.Sound.after annotated source unfinished
  have htable : ((Session.start table source).after n).table = table := Session.table_after _ n
  have hlinked := hsound.linked
  have hderives := hsound.derives
  rw [htable] at hlinked hderives
  obtain ⟨whole, more, next, rest, hwhole, hprogram, hstarts, hbehind, htaken⟩ :=
    completable.exists_goal complete rfl (.atEnd 0) (List.mem_singleton.mpr rfl) rfl hlinked
      hderives
  rw [Session.leaves_after n unfinished] at hstarts
  refine ⟨next.kind, Table.mem_expected.mpr htaken,
    canFollow_iff.mpr ⟨more.map Token.kind, ?_, whole, hwhole, hprogram, ?_⟩⟩
  · cases more with
    | nil => exact congrArg Token.kind (List.cons.inj hbehind).1
    | cons first more => exact congrArg Token.kind (List.cons.inj hbehind).1
  · rw [ParseTree.kinds, hstarts, ← List.map_append]
    rfl

/-- What has been shifted before a failure is the beginning of a program. -/
theorem isProgramStart_shifted {source : σ} {limit : Nat} {token : Token}
    {expected : List Terminal}
    (fails : (parseWithin limit source).1 = .failed (.unexpected token expected)) :
    IsProgramStart (((Session.start table source).shifted limit).map Token.kind) := by
  obtain ⟨n, hbefore, -, -, -, hshifted, -⟩ := Session.rejected_at fails
  obtain ⟨kind, -, hfollows⟩ := exists_canFollow hbefore
  rw [← hshifted]
  exact hfollows.isProgramStart

/-- No program goes on with the unexpected token, where the end of the input goes on behind the
last token of a program. -/
theorem not_isProgram_of_next {source : σ} {limit : Nat} {token : Token} {expected : List Terminal}
    (fails : (parseWithin limit source).1 = .failed (.unexpected token expected))
    {rest : List Terminal} (next : rest.headD .endOfInput = token.kind) :
    ¬IsProgram (((Session.start table source).shifted limit).map Token.kind ++ rest) := by
  rintro ⟨tree, hderivation, hsymbol, hkinds⟩
  obtain ⟨-, -, -, htaken, -⟩ := Session.rejected_run annotated fails
  obtain ⟨front, back, hleaves, hfront, hback⟩ := List.map_eq_append_iff.mp hkinds
  have hlength : ((Session.start table source).shifted limit).length = front.length := by
    rw [← List.length_map Token.kind, ← hfront, List.length_map]
  have hlast : (back.headD (.atEnd 0)).kind = token.kind := by
    rw [← next, ← hback]
    cases back <;> rfl
  -- the leaves of the tree, replayed, have the same kinds up to the unexpected token
  have hreads : (TokenSource.take source (front.length + 1)).1.map Token.kind =
      (TokenSource.take (⟨tree.leaves, 0⟩ : Script) (front.length + 1)).1.map Token.kind := by
    rw [hleaves, Script.take_front, ← hlength, htaken, List.map_append, List.map_append, hfront,
      List.map_singleton, List.map_singleton, hlast]
  have houtcome := Session.run_of_kinds table (congrArg (· + 1) hlength.symm) hreads
  rw [parseWithin] at fails
  rw [fails] at houtcome
  have hended : ((Session.start table (⟨tree.leaves, 0⟩ : Script)).run limit).1 ≠ .unfinished := by
    intro h
    rw [h] at houtcome
    cases houtcome
  -- but the leaves of a program are accepted, and more steps would not change what has failed
  have hall := Script.take_front 0 [] tree.leaves
  rw [List.append_nil] at hall
  have hend : ([].headD (Token.atEnd 0)).kind = .endOfInput := rfl
  have henough : tree.size < limit + (tree.size + 1) := by omega
  have haccepted := accepts_derivation ⟨hderivation, hsymbol⟩ hend hall henough
  rw [parseWithin, Session.run_eq_of_le rfl hended (Nat.le_add_right _ _)] at haccepted
  rw [haccepted] at houtcome
  cases houtcome

/-- The tokens shifted before a failure begin a program; with the unexpected one behind them, the
last one pulled, they no longer do. -/
theorem correct_prefix {source : σ} {limit : Nat} {token : Token} {expected : List Terminal}
    (fails : (parseWithin limit source).1 = .failed (.unexpected token expected)) :
    let shifted := (Session.start table source).shifted limit
    let kinds := shifted.map Token.kind
    IsProgramStart kinds ∧
    (token.kind ≠ .endOfInput → ¬IsProgramStart (kinds ++ [token.kind])) ∧
    (token.kind = .endOfInput → ¬IsProgram kinds) ∧
    (TokenSource.take source (kinds.length + 1)).1 = shifted ++ [token] ∧
    (parseWithin limit ({ inner := source } : Recorded σ)).2.source.pulled = shifted ++ [token] := by
  intro shifted kinds
  obtain ⟨-, -, -, htaken, hpulled⟩ := Session.rejected_run annotated fails
  refine ⟨isProgramStart_shifted fails, ?_, ?_, ?_, hpulled⟩
  · rintro - ⟨more, hmore⟩
    rw [List.append_assoc] at hmore
    exact not_isProgram_of_next fails rfl hmore
  · intro hend hprogram
    have hnext : [].headD .endOfInput = token.kind := hend.symm
    rw [← List.append_nil kinds] at hprogram
    exact not_isProgram_of_next fails hnext hprogram
  · rw [List.length_map]
    exact htaken

/-- Behind an operand the automaton reduces on any lookahead that can follow an operand somewhere,
and finds out only then that this one cannot. -/
theorem correct_prefix_operand :
    let tokens : List Token := [.bare .prog 1, ⟨.ident, some "tiny", 1⟩, .bare .colon 1,
      .bare .set 2, ⟨.ident, some "x", 2⟩, .bare .assign 2, ⟨.literal, some "1", 2⟩,
      .bare .rightParen 2, .bare .semicolon 2]
    (parseWithin 50 (Script.ofList tokens)).1 =
      .failed (.unexpected (.bare .rightParen 2) [.orOp, .semicolon]) ∧
    IsProgramStart [.prog, .ident, .colon, .set, .ident, .assign, .literal] ∧
    ¬IsProgramStart [.prog, .ident, .colon, .set, .ident, .assign, .literal, .rightParen] := by
  intro tokens
  have hfails : (parseWithin 50 (Script.ofList tokens)).1 =
      .failed (.unexpected (.bare .rightParen 2) [.orOp, .semicolon]) := by decide +kernel
  have hkinds : ((Session.start table (Script.ofList tokens)).shifted 50).map Token.kind =
      [.prog, .ident, .colon, .set, .ident, .assign, .literal] := by decide +kernel
  obtain ⟨hstart, hnext, -⟩ := correct_prefix hfails
  rw [hkinds] at hstart hnext
  exact ⟨hfails, hstart, hnext nofun⟩

end Language

end ShiftReduce
