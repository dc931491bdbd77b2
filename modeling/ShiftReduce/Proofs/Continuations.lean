import ShiftReduce.Proofs.CorrectPrefix

/-!
What can come next. Among the terminals that the state on top has an entry for there always is a
legal continuation of what has been shifted; and a session that is given a legal continuation takes
it, since it goes the same way as on a program that has it there, up to the step that shifts it. So
no failure leaves a reader without a way on.
-/

namespace ShiftReduce

namespace Session

variable {σ τ : Type} [TokenSource σ] [TokenSource τ]

/-- Where a session has just shifted some tokens, a session over any source that begins with these
tokens holds the same after as many steps. -/
theorem same_until_shifted {table : Table} {source : σ} {other : τ} {n : Nat} {front : List Token}
    (shifts : (start table source).shifted n = front)
    (first : ∀ i < n, ((start table source).shifted i).length < front.length)
    (unfinished : ((start table source).after n).finished = false)
    (reads : (TokenSource.take other front.length).1 = front) :
    ((start table other).after n).finished = false ∧
      ((start table other).after n).stack = ((start table source).after n).stack ∧
      (start table other).shifted n = front := by
  subst shifts
  have hstart : Alike id (((start table source).shifted n).length + 0) (start table source)
      (start table other) := by
    refine ⟨rfl, ?_⟩
    rw [Nat.add_zero, upcoming_start, upcoming_start, take_shifted unfinished, reads]
  obtain ⟨halike, hshifted⟩ := Alike.after (f := id) (fun _ => rfl) hstart first unfinished
  rw [List.map_id, List.map_id] at hshifted
  exact ⟨halike.finished_eq.symm.trans unfinished, (stack_eq_of_relabel halike.holds).symm,
    hshifted.symm⟩

end Session

namespace Language

/-- A program that begins with some tokens and goes on with a legal continuation, or ends there. -/
theorem CanFollow.exists_tree {front : List Token} {next : Token}
    (follows : CanFollow (front.map Token.kind) next.kind) :
    ∃ tree last more, IsProgramTree tree ∧ last.kind = .endOfInput ∧
      tree.leaves ++ [last] = front ++ next :: more := by
  obtain ⟨rest, hnext, hprogram⟩ := canFollow_iff.mp follows
  cases rest with
  | nil =>
    rw [List.append_nil] at hprogram
    obtain ⟨tree, htree, hleaves⟩ := hprogram.exists_tree
    exact ⟨tree, next, [], htree, hnext.symm, by rw [hleaves]⟩
  | cons kind rest =>
    obtain rfl : kind = next.kind := hnext
    have hkinds : front.map Token.kind ++ next.kind :: rest =
        (front ++ next :: rest.map (Token.bare · 0)).map Token.kind := by
      simp [Function.comp_def, Token.bare]
    rw [hkinds] at hprogram
    obtain ⟨tree, htree, hleaves⟩ := hprogram.exists_tree
    refine ⟨tree, .atEnd 0, rest.map (Token.bare · 0) ++ [.atEnd 0], htree, rfl, ?_⟩
    rw [hleaves, List.append_assoc, List.cons_append]

/-- The leaves of a program and an end token behind them are accepted. -/
theorem accepts_script {tree : ParseTree} (program : IsProgramTree tree) {last : Token}
    (ends : last.kind = .endOfInput) {limit : Nat} (enough : tree.size < limit) :
    (parseWithin limit (⟨tree.leaves ++ [last], 0⟩ : Script)).1 = .accepted tree :=
  accepts_derivation program ends (Script.take_front 0 [last] tree.leaves) enough

/-- A session shifts all the leaves of a program before it accepts. -/
theorem exists_shifted_leaves {tree : ParseTree} (program : IsProgramTree tree) {last : Token}
    (ends : last.kind = .endOfInput) :
    let session := Session.start table (⟨tree.leaves ++ [last], 0⟩ : Script)
    ∃ n, (session.after n).finished = false ∧ session.shifted n = tree.leaves := by
  intro session
  have haccepted := accepts_script program ends (Nat.lt_succ_self tree.size)
  obtain ⟨-, -, hall, -⟩ := Session.accepted_run annotated haccepted
  have hended : (session.run (tree.size + 1)).1 ≠ .unfinished := by
    rw [parseWithin] at haccepted
    intro hunfinished
    rw [haccepted] at hunfinished
    cases hunfinished
  obtain ⟨n, hbefore, -, hstack, -⟩ := Session.ended_run hended
  refine ⟨n, hbefore, ?_⟩
  rw [← hall, Session.leaves_after n hbefore] at hstack
  exact hstack

/-- A session that is given a legal continuation behind some tokens takes it: it shifts it, or
accepts where it is the end of the input. -/
theorem CanFollow.taken {σ : Type} [TokenSource σ] {source : σ} {front : List Token} {next : Token}
    (follows : CanFollow (front.map Token.kind) next.kind)
    (reads : (TokenSource.take source (front.length + 1)).1 = front ++ [next]) :
    (next.kind ≠ .endOfInput → ∃ count,
      (Session.start table source).shifted count = front ++ [next]) ∧
    (next.kind = .endOfInput → ∃ limit tree, (parseWithin limit source).1 = .accepted tree) := by
  constructor
  · intro hnext
    obtain ⟨tree, last, more, hprogram, hlast, hleaves⟩ := follows.exists_tree
    obtain ⟨n, hbefore, hall⟩ := exists_shifted_leaves hprogram hlast
    have hlength : (front ++ [next]).length ≤ tree.leaves.length := by
      have hmore : more ≠ [] := by
        rintro rfl
        obtain ⟨-, hsame⟩ := List.append_inj' hleaves rfl
        exact hnext ((List.cons.inj hsame).1 ▸ hlast)
      have hpos := List.length_pos_iff.mpr hmore
      have hlengths := congrArg List.length hleaves
      simp only [List.length_append, List.length_cons, List.length_nil] at hlengths ⊢
      omega
    -- the replayed program shifts the continuation at some step, and the two go alike up to there
    rw [← hall] at hlength
    obtain ⟨m, hm, hcount, hfirst⟩ := Session.exists_shifted_eq hlength
    have hunfinished := Session.unfinished_of_le hm hbefore
    have hshifted := Session.take_shifted hunfinished
    rw [hcount, List.length_append, List.length_singleton, hleaves, Script.take_front,
      List.headD_cons, ← hleaves] at hshifted
    rw [← List.length_singleton (a := next), ← List.length_append] at reads
    exact ⟨m, (Session.same_until_shifted hshifted.symm hfirst hunfinished reads).2.2⟩
  · intro hend
    rw [CanFollow, if_pos hend] at follows
    obtain ⟨tree, hprogram, hleaves⟩ := follows.exists_tree
    rw [← hleaves] at reads
    exact ⟨_, tree, accepts_derivation hprogram hend reads (Nat.lt_succ_self tree.size)⟩

/-- One at least of the terminals that a failure expects is a real way on: in place of the
unexpected token, any token of that kind is shifted, or accepted where it is the end. -/
theorem offers_way_on {σ : Type} [TokenSource σ] {source : σ} {limit : Nat} {token : Token}
    {expected : List Terminal}
    (fails : (parseWithin limit source).1 = .failed (.unexpected token expected)) :
    let shifted := (Session.start table source).shifted limit
    ∃ kind ∈ expected, CanFollow (shifted.map Token.kind) kind ∧
      ∀ {τ : Type} [TokenSource τ] (fresh : τ) (next : Token), next.kind = kind →
        (TokenSource.take fresh (shifted.length + 1)).1 = shifted ++ [next] →
        (kind ≠ .endOfInput → ∃ count,
          (Session.start table fresh).shifted count = shifted ++ [next]) ∧
        (kind = .endOfInput → ∃ limit tree, (parseWithin limit fresh).1 = .accepted tree) := by
  intro shifted
  obtain ⟨n, hbefore, -, rfl, -, hshifted, -⟩ := Session.rejected_at fails
  obtain ⟨kind, hmem, hfollows⟩ := exists_canFollow hbefore
  rw [hshifted] at hfollows
  refine ⟨kind, hmem, hfollows, ?_⟩
  rintro τ _ fresh next rfl reads
  exact hfollows.taken reads

/-- Behind the one block of a program an alternative is seen only after the block is closed, and the
state then on top offers nothing but the smile. -/
theorem offers_way_on_smile :
    let front : List Token := [.bare .prog 1, ⟨.ident, some "tiny", 1⟩, .bare .colon 1,
      .bare .done 2]
    (parseWithin 50 (Script.ofList (front ++ [.bare .elseWord 2]))).1 =
      .failed (.unexpected (.bare .elseWord 2) [.smile]) ∧
    ∃ count, (Session.start table (Script.ofList (front ++ [.bare .smile 2]))).shifted count =
      front ++ [.bare .smile 2] := by
  intro front
  have hfails : (parseWithin 50 (Script.ofList (front ++ [.bare .elseWord 2]))).1 =
      .failed (.unexpected (.bare .elseWord 2) [.smile]) := by decide +kernel
  have hshifted : (Session.start table (Script.ofList (front ++ [.bare .elseWord 2]))).shifted 50 =
      front := by decide +kernel
  obtain ⟨kind, hmem, -, hgoes⟩ := offers_way_on hfails
  obtain rfl := List.mem_singleton.mp hmem
  rw [hshifted] at hgoes
  exact ⟨hfails,
    (hgoes (Script.ofList (front ++ [.bare .smile 2])) (.bare .smile 2) rfl rfl).1 nofun⟩

end Language

end ShiftReduce
