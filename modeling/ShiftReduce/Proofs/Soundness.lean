import ShiftReduce.Proofs.Kernels
import ShiftReduce.Proofs.Pulled
import ShiftReduce.Proofs.Sound
import ShiftReduce.Parse

/-!
What the language's parser can answer. Its table is annotated, so whatever tokens a session is
fed, no step ever answers that the table contradicts itself. And what it accepts is a derivation
of a program whose leaves are the tokens before the end of the input, text and line included, with
no token pulled behind that end.
-/

namespace ShiftReduce

namespace Derivation

variable {rules : List Rule}

/-- Every subtree of a derivation is one. -/
theorem descend {tree sub : ParseTree} (derivation : Derivation rules tree) {path : List Nat}
    (found : tree.descend? path = some sub) : Derivation rules sub := by
  induction path generalizing tree with
  | nil =>
    obtain rfl := Option.some.inj found
    exact derivation
  | cons position path ih =>
    obtain ⟨child, hchild, hrest⟩ := Option.bind_eq_some_iff.mp found
    cases derivation with
    | leaf token => cases hchild
    | node mem spells below => exact ih (below child (List.mem_of_getElem? hchild)) hrest

/-- Below a nonterminal stand only kinds of token that some right-hand side names. -/
theorem kind_named {tree : ParseTree} (derivation : Derivation rules tree) :
    ∀ token ∈ tree.leaves, tree.symbol = .terminal token.kind ∨
      ∃ rule ∈ rules, .terminal token.kind ∈ rule.body := by
  induction derivation with
  | leaf token =>
    intro found mem
    obtain rfl := List.mem_singleton.mp mem
    exact Or.inl rfl
  | @node rule children hrule hspells _ ih =>
    intro token mem
    rw [ParseTree.leaves, ParseTree.leavesAll_eq_flatMap, List.mem_flatMap] at mem
    obtain ⟨child, hchild, htoken⟩ := mem
    refine Or.inr ((ih child hchild token htoken).elim (fun hsymbol => ?_) id)
    refine ⟨rule, hrule, ?_⟩
    rw [hspells, ← hsymbol]
    exact List.mem_map_of_mem hchild

end Derivation

/-! ### What comes before the end -/

/-- What a finite source hands out before an end token, itself none, are its tokens. -/
theorem FiniteSource.tokens_of_take {σ : Type} [FiniteSource σ] :
    ∀ {front : List Token} {last : Token} {source : σ},
    (TokenSource.take source (front.length + 1)).1 = front ++ [last] →
    (∀ token ∈ front, token.kind ≠ .endOfInput) → last.kind = .endOfInput →
    tokens source = front
  | [], last, source, taken, _, ends => by
    obtain rfl : (TokenSource.next source).1 = last := (List.cons.inj taken).1
    rw [tokens, if_pos ends]
  | first :: front, last, source, taken, others, ends => by
    obtain ⟨hfirst, hrest⟩ := List.cons.inj taken
    obtain rfl : (TokenSource.next source).1 = first := hfirst
    obtain ⟨hgoes, hothers⟩ := List.forall_mem_cons.mp others
    rw [tokens, if_neg hgoes, tokens_of_take hrest hothers ends]

/-- The tokens of a script are those in front of the first that ends the input. -/
theorem Script.tokens_eq (pending : List Token) (endLine : Nat) :
    FiniteSource.tokens (⟨pending, endLine⟩ : Script) =
      pending.takeWhile fun token => token.kind ≠ .endOfInput := by
  induction pending with
  | nil =>
    rw [FiniteSource.tokens]
    exact if_pos rfl
  | cons token pending ih =>
    have hnext : TokenSource.next (⟨token :: pending, endLine⟩ : Script) =
      (token, ⟨pending, endLine⟩) := rfl
    rw [FiniteSource.tokens, hnext, ih, List.takeWhile_cons]
    by_cases hends : token.kind = .endOfInput <;> simp [hends]

/-- What a script hands out before its first end token is its tokens up to the first of them. -/
theorem Script.takeWhile_pending {front : List Token} {last : Token} {script : Script}
    (taken : (TokenSource.take script (front.length + 1)).1 = front ++ [last])
    (others : ∀ token ∈ front, token.kind ≠ .endOfInput) (ends : last.kind = .endOfInput) :
    script.pending.takeWhile (fun token => token.kind ≠ .endOfInput) = front := by
  rw [← tokens_eq script.pending script.endLine]
  exact FiniteSource.tokens_of_take taken others ends

namespace Language

variable {σ : Type} [TokenSource σ]

/-- No step of a session over the language's table answers with a fault, and a session only ever
fails on an unexpected token. -/
theorem step_faultless (source : σ) (count : Nat) {session : Session σ}
    (reached : (Session.start table source).after count = session) :
    (∀ fault, session.step.1 ≠ .error (.internal fault)) ∧
    (session.finished = false →
      (∀ error, session.step.1 = .error error →
        error = .unexpected session.peek.1 (table.expected session.stack.topState)) ∧
      (∀ index, table.action session.stack.topState session.peek.1.kind = .reduce index →
        ∃ rule children below state, table.rule? index = some rule ∧
          session.stack.popMany rule.arity = (.ok children, below) ∧
          table.goto? below.topState rule.head = some state) ∧
      (table.action session.stack.topState session.peek.1.kind = .accept →
        session.stack.depth = 1 ∧ ∃ tree, session.stack.takeResult.1 = .ok tree)) := by
  have htable : session.table = table := by
    rw [← reached]
    exact Session.table_after _ count
  cases hfin : session.finished with
  | true =>
    refine ⟨?_, nofun⟩
    intro fault
    rw [Session.step_of_finished hfin]
    exact nofun
  | false =>
    have hsound : Session.Sound kernel .program 2 session := by
      rw [← reached] at hfin ⊢
      exact Session.Sound.after annotated source hfin
    have hanswer := hsound.answer
    have hreduce := hsound.reduce_succeeds
    have haccept := hsound.accept_succeeds
    rw [htable] at hanswer hreduce haccept
    refine ⟨?_, fun _ => ⟨?_, ?_, ?_⟩⟩
    · intro fault hfault
      rw [hfault] at hanswer
      rcases hanswer with ⟨_, h⟩ | ⟨_, _, h⟩ | ⟨_, h, -⟩ | h <;> cases h
    · intro error herror
      rw [herror] at hanswer
      rcases hanswer with ⟨_, h⟩ | ⟨_, _, h⟩ | ⟨_, h, -⟩ | h
      · cases h
      · cases h
      · cases h
      · exact Except.error.inj h
    · intro index action
      obtain ⟨rule, children, below, state, hlookup, hpops, -, hgoto⟩ := hreduce _ action
      exact ⟨rule, children, below, state, hlookup, hpops, hgoto⟩
    · intro action
      obtain ⟨-, tree, hstack, -⟩ := haccept action
      rw [hstack]
      exact ⟨rfl, tree, rfl⟩

/-- A block is closed by a reduction, which finds its rule and its one child. -/
theorem step_faultless_block :
    let session := (Session.start table (Script.ofList [.bare .prog 1, ⟨.ident, some "tiny", 1⟩,
      .bare .colon 1, .bare .done 2, .bare .smile 2])).after 4
    session.finished = false ∧
    table.action session.stack.topState session.peek.1.kind = .reduce 2 ∧
    ∃ rule children below state, table.rule? 2 = some rule ∧
      session.stack.popMany rule.arity = (.ok children, below) ∧
      table.goto? below.topState rule.head = some state := by
  intro session
  have hfinished : session.finished = false := by decide
  have haction : table.action session.stack.topState session.peek.1.kind = .reduce 2 := by decide
  exact ⟨hfinished, haction, ((step_faultless _ 4 rfl).2 hfinished).2.1 2 haction⟩

/-! ### Accepted trees -/

/-- No rule of the grammar mentions the end of the input. -/
theorem end_not_named : ∀ rule ∈ rules, .terminal .endOfInput ∉ rule.body := by decide

theorem leaves_ne_end {tree : ParseTree} (program : IsProgramTree tree) :
    ∀ token ∈ tree.leaves, token.kind ≠ .endOfInput := by
  intro token mem hend
  rcases program.1.kind_named token mem with hsymbol | ⟨rule, hrule, hbody⟩
  · rw [program.2] at hsymbol
    cases hsymbol
  · rw [hend] at hbody
    exact end_not_named rule hrule hbody

/-- What a finite source is parsed into is a program over its tokens. -/
theorem program_of_parse {σ : Type} [FiniteSource σ] {source : σ} {tree : ParseTree}
    (accepted : parse source = .accepted tree) :
    IsProgramTree tree ∧ tree.leaves = FiniteSource.tokens source := by
  obtain ⟨hderivation, hsymbol, -, last, hlast, htaken⟩ :=
    Session.accepted_run annotated accepted
  have hprogram : IsProgramTree tree := ⟨hderivation, hsymbol⟩
  exact ⟨hprogram, (FiniteSource.tokens_of_take htaken (leaves_ne_end hprogram) hlast).symm⟩

/-- A tree that is accepted is a derivation of a program, out of the tokens in front of the first
end, and no token behind that is pulled. -/
theorem accepted_is_derivation {tokens : List Token} {limit : Nat} {tree : ParseTree}
    (accepted : (parseWithin limit (Script.ofList tokens)).1 = .accepted tree) :
    IsProgramTree tree ∧
    (∀ path head children, tree.descend? path = some (.node head children) →
      ∃ rule ∈ rules, rule.head = head ∧ rule.body = children.map ParseTree.symbol ∧
        rule.arity = children.length) ∧
    tree.leaves = tokens.takeWhile (fun token => token.kind ≠ .endOfInput) ∧
    (parseWithin limit ({ inner := Script.ofList tokens } : Recorded Script)).2.source.pulled.length
      = tree.leaves.length + 1 := by
  obtain ⟨hderivation, hsymbol, hleaves, last, hlast, htaken⟩ :=
    Session.accepted_run annotated accepted
  have hprogram : IsProgramTree tree := ⟨hderivation, hsymbol⟩
  refine ⟨hprogram, ?_, ?_, ?_⟩
  · intro path head children found
    obtain ⟨rule, hrule, hhead, hbody⟩ := (hderivation.descend found).exists_rule
    refine ⟨rule, hrule, hhead, hbody, ?_⟩
    rw [arity_eq_length rule hrule, hbody, List.length_map]
  · exact (Script.takeWhile_pending htaken (leaves_ne_end hprogram) hlast).symm
  · have hends : ((Session.start table (Script.ofList tokens)).run limit).1 ≠ .unfinished := by
      rw [parseWithin] at accepted
      rw [accepted]
      exact nofun
    rw [parseWithin, Session.pulled_run table _ hends, ← hleaves, htaken, List.length_append]
    rfl

/-- Tokens behind the first that ends the input play no part. -/
theorem accepted_is_derivation_cut :
    let tokens : List Token := [.bare .prog 1, ⟨.ident, some "tiny", 1⟩, .bare .colon 1,
      .bare .done 2, .bare .smile 2, .bare .endOfInput 2, .bare .unknown 3]
    ∃ tree, (parseWithin 8 (Script.ofList tokens)).1 = .accepted tree ∧ IsProgramTree tree ∧
      tree.leaves = tokens.take 5 := by
  intro tokens
  have haccepted : (parseWithin 8 (Script.ofList tokens)).1 = .accepted (.node .program
      [.leaf (.bare .prog 1), .leaf ⟨.ident, some "tiny", 1⟩, .leaf (.bare .colon 1),
        .node .block [.leaf (.bare .done 2)], .leaf (.bare .smile 2)]) := by decide
  obtain ⟨hprogram, -, hleaves, -⟩ := accepted_is_derivation haccepted
  exact ⟨_, haccepted, hprogram, hleaves⟩

end Language

end ShiftReduce
