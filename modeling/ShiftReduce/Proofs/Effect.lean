import ShiftReduce.Session

/-!
What a step can do. Each answer of a session comes with one of eight effects on what the session
holds, so a property of every step is proved by going through the effects, and no later proof
unfolds the automaton again. A session that is unfinished after some number of steps has made
nothing but shifts and reductions on the way, and a run ends with the first step that is neither.
-/

namespace ShiftReduce

namespace Stack

/-- The trees on a stack from the bottom up. -/
def trees (stack : Stack) : List ParseTree :=
  stack.above.reverse.filterMap StackEntry.tree

@[simp] theorem trees_empty : empty.trees = [] := rfl

@[simp] theorem trees_push (stack : Stack) (state : Nat) (tree : ParseTree) :
    (stack.push state (some tree)).trees = stack.trees ++ [tree] := by
  simp [trees, push]

theorem subtrees_ok {entries : List StackEntry} {children : List ParseTree}
    (h : subtrees entries = .ok children) : entries.map StackEntry.tree = children.map some := by
  rcases subtrees_cases entries with ⟨trees, hok, htrees⟩ | ⟨_, _, _, -, -, -, herror⟩
  · obtain rfl := Except.ok.inj (hok.symm.trans h)
    exact htrees
  · cases herror.symm.trans h

/-- The trees that come off a stack are the last of its trees, and what lies below them stays. -/
theorem popMany_ok {stack below : Stack} {count : Nat} {children : List ParseTree}
    (h : stack.popMany count = (.ok children, below)) :
    children.length = count ∧ stack.trees = below.trees ++ children ∧
      below.above = stack.above.drop count := by
  obtain ⟨hle, hchildren, rfl⟩ := popMany_eq_ok.mp h
  have htrees := subtrees_ok hchildren
  refine ⟨?_, ?_, rfl⟩
  · have hlen := congrArg List.length htrees
    rw [List.length_map, List.length_map, List.length_reverse, List.length_take_of_le hle] at hlen
    exact hlen.symm
  · have hpopped : (stack.above.take count).reverse.filterMap StackEntry.tree = children := by
      rw [← Function.id_comp StackEntry.tree, ← List.filterMap_map, htrees, List.filterMap_map]
      exact List.filterMap_some
    rw [trees, trees, ← hpopped, ← List.filterMap_append, ← List.reverse_append,
      List.take_append_drop]

end Stack

namespace Session

variable {σ : Type}

/-- What a move on the buffered token answers and leaves behind. -/
inductive Effect (session : Session σ) (token : Token) :
    Except ParseError Step × Session σ → Prop
  | shift {state : Nat}
      (action : session.table.action session.stack.topState token.kind = .shift state) :
      Effect session token (.ok (.shifted state), session.shift token state)
  | reduce {index state : Nat} {rule : Rule} {children : List ParseTree} {below : Stack}
      (action : session.table.action session.stack.topState token.kind = .reduce index)
      (lookup : session.table.rule? index = some rule)
      (pops : session.stack.popMany rule.arity = (.ok children, below))
      (goto : session.table.goto? below.topState rule.head = some state) :
      Effect session token (.ok (.reduced index state),
        { session with stack := below.push state (some (.node rule.head children)) })
  | accept {tree : ParseTree} {below : Stack}
      (action : session.table.action session.stack.topState token.kind = .accept)
      (takes : session.stack.takeResult = (.ok tree, below)) :
      Effect session token (.ok (.accepted tree),
        { session with stack := below, finished := true })
  | reject
      (action : session.table.action session.stack.topState token.kind = .error) :
      Effect session token (session.reject token)
  | unknownRule {index : Nat}
      (action : session.table.action session.stack.topState token.kind = .reduce index)
      (lookup : session.table.rule? index = none) :
      Effect session token (session.fail (.internal (.unknownRule index)))
  | popFault {index : Nat} {rule : Rule} {fault : Fault} {below : Stack}
      (action : session.table.action session.stack.topState token.kind = .reduce index)
      (lookup : session.table.rule? index = some rule)
      (pops : session.stack.popMany rule.arity = (.error fault, below)) :
      Effect session token (fail { session with stack := below } (.internal fault))
  | missingGoto {index : Nat} {rule : Rule} {children : List ParseTree} {below : Stack}
      (action : session.table.action session.stack.topState token.kind = .reduce index)
      (lookup : session.table.rule? index = some rule)
      (pops : session.stack.popMany rule.arity = (.ok children, below))
      (goto : session.table.goto? below.topState rule.head = none) :
      Effect session token (fail { session with stack := below }
        (.internal (.missingGoto below.topState rule.head)))
  | takeFault {fault : Fault} {below : Stack}
      (action : session.table.action session.stack.topState token.kind = .accept)
      (takes : session.stack.takeResult = (.error fault, below)) :
      Effect session token (fail { session with stack := below } (.internal fault))

/-- Every move has one of the effects. -/
theorem effect_move (session : Session σ) (token : Token) :
    Effect session token (session.move token) := by
  rw [move]
  split
  · rename_i state haction
    exact .shift haction
  · rename_i index haction
    rw [reduce]
    split
    · rename_i hlookup
      exact .unknownRule haction hlookup
    · rename_i rule hlookup
      split
      · rename_i fault below hpops
        exact .popFault haction hlookup hpops
      · rename_i children below hpops
        split
        · rename_i hgoto
          exact .missingGoto haction hlookup hpops hgoto
        · rename_i state hgoto
          exact .reduce haction hlookup hpops hgoto
  · rename_i haction
    rw [accept]
    split
    · rename_i fault below htakes
      exact .takeFault haction htakes
    · rename_i tree below htakes
      exact .accept haction htakes
  · rename_i haction
    exact .reject haction

/-- An effect determines the move. -/
theorem Effect.eq_move {session : Session σ} {token : Token}
    {result : Except ParseError Step × Session σ} (effect : Effect session token result) :
    session.move token = result := by
  cases effect with
  | shift action => simp only [move, action]
  | reduce action lookup pops goto => simp only [move, action, Session.reduce, lookup, pops, goto]
  | accept action takes => simp only [move, action, Session.accept, takes]
  | reject action => simp only [move, action]
  | unknownRule action lookup => simp only [move, action, Session.reduce, lookup]
  | popFault action lookup pops => simp only [move, action, Session.reduce, lookup, pops]
  | missingGoto action lookup pops goto =>
    simp only [move, action, Session.reduce, lookup, pops, goto]
  | takeFault action takes => simp only [move, action, Session.accept, takes]

/-- A move that leaves the session unfinished has shifted or reduced. -/
theorem Effect.unfinished {session next : Session σ} {token : Token}
    {answer : Except ParseError Step} (effect : Effect session token (answer, next))
    (unfinished : next.finished = false) :
    (∃ state, session.table.action session.stack.topState token.kind = .shift state ∧
      answer = .ok (.shifted state) ∧ next = session.shift token state) ∨
    (∃ index rule children below state,
      session.table.action session.stack.topState token.kind = .reduce index ∧
      session.table.rule? index = some rule ∧
      session.stack.popMany rule.arity = (.ok children, below) ∧
      session.table.goto? below.topState rule.head = some state ∧
      answer = .ok (.reduced index state) ∧
      next = { session with stack := below.push state (some (.node rule.head children)) }) := by
  cases effect with
  | shift action => exact Or.inl ⟨_, action, rfl, rfl⟩
  | reduce action lookup pops goto =>
    exact Or.inr ⟨_, _, _, _, _, action, lookup, pops, goto, rfl, rfl⟩
  | accept action takes => cases unfinished
  | reject action => cases unfinished
  | unknownRule action lookup => cases unfinished
  | popFault action lookup pops => cases unfinished
  | missingGoto action lookup pops goto => cases unfinished
  | takeFault action takes => cases unfinished

end Session

end ShiftReduce
