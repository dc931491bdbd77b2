import ShiftReduce.Table.Basic
import ShiftReduce.Stack
import ShiftReduce.Source

/-!
A parse session runs the automaton of a table over a token source. It pulls a token only when the
state on top of the stack has to see one and none is buffered; a shift uses the buffered token up,
a reduction and the final accept leave it where it is, and an unexpected token is handed out with
the error. A step makes exactly one such move. A session that has accepted or failed stays as it
is and answers every further step with the same error.
-/

namespace ShiftReduce

/-- A move of the automaton that did not fail. -/
inductive Step where
  | shifted (state : Nat)
  | reduced (rule state : Nat)
  | accepted (tree : ParseTree)
  deriving DecidableEq, Repr

/-- How a run ended, if it has. -/
inductive Outcome where
  | accepted (tree : ParseTree)
  | failed (error : ParseError)
  | unfinished
  deriving DecidableEq, Repr

/-- Everything a parse knows between two steps. -/
structure Session (σ : Type) where
  table : Table
  source : σ
  stack : Stack := .empty
  lookahead : Option Token := none
  /-- The line of the token pulled last. -/
  line : Nat := 1
  finished : Bool := false

namespace Session

variable {σ : Type}

/-- A session that has not pulled a token yet. -/
def start (table : Table) (source : σ) : Session σ := { table, source }

/-- The next token, pulled from the source unless one is buffered, and the session with that token
in its buffer. -/
def peek [TokenSource σ] (session : Session σ) : Token × Session σ :=
  match session.lookahead with
  | some token => (token, session)
  | none =>
    let pulled := TokenSource.next session.source
    (pulled.1,
      { session with source := pulled.2, lookahead := some pulled.1, line := pulled.1.line })

/-- Moves the buffered token onto the stack. -/
def shift (session : Session σ) (token : Token) (state : Nat) : Session σ :=
  { session with stack := session.stack.push state (some (.leaf token)), lookahead := none }

/-- A failure ends the session. -/
def fail {α : Type} (session : Session σ) (error : ParseError) : Except ParseError α × Session σ :=
  (.error error, { session with finished := true })

/-- Replaces the topmost entries by the tree that a rule builds from theirs. -/
def reduce (session : Session σ) (index : Nat) : Except ParseError Step × Session σ :=
  match session.table.rule? index with
  | none => session.fail (.internal (.unknownRule index))
  | some rule =>
    match session.stack.popMany rule.arity with
    | (.error fault, stack) => fail { session with stack } (.internal fault)
    | (.ok children, stack) =>
      match session.table.goto? stack.topState rule.head with
      | none => fail { session with stack } (.internal (.missingGoto stack.topState rule.head))
      | some state =>
        (.ok (.reduced index state),
          { session with stack := stack.push state (some (.node rule.head children)) })

/-- Ends the session with the one tree on its stack. -/
def accept (session : Session σ) : Except ParseError Step × Session σ :=
  match session.stack.takeResult with
  | (.error fault, stack) => fail { session with stack } (.internal fault)
  | (.ok tree, stack) => (.ok (.accepted tree), { session with stack, finished := true })

/-- Hands an unexpected token out, with what the state on top would have taken instead. -/
def reject (session : Session σ) (token : Token) : Except ParseError Step × Session σ :=
  fail { session with lookahead := none }
    (.unexpected token (session.table.expected session.stack.topState))

/-- The move that the table asks for on the buffered token. -/
def move (session : Session σ) (token : Token) : Except ParseError Step × Session σ :=
  match session.table.action session.stack.topState token.kind with
  | .shift state => (.ok (.shifted state), session.shift token state)
  | .reduce index => session.reduce index
  | .accept => session.accept
  | .error => session.reject token

/-- Makes one move, unless the session has ended. -/
def step [TokenSource σ] (session : Session σ) : Except ParseError Step × Session σ :=
  if session.finished then (.error .finished, session)
  else session.peek.2.move session.peek.1

/-- The session after `count` steps, whatever they answer. -/
def after [TokenSource σ] (session : Session σ) : (count : Nat) → Session σ
  | 0 => session
  | count + 1 => after session.step.2 count

/-- Steps until the session accepts or fails, at most `limit` times. -/
def run [TokenSource σ] : (limit : Nat) → Session σ → Outcome × Session σ
  | 0, session => (.unfinished, session)
  | limit + 1, session =>
    match session.step with
    | (.error error, session) => (.failed error, session)
    | (.ok (.accepted tree), session) => (.accepted tree, session)
    | (.ok _, session) => run limit session

/-- The results of up to `count` steps; an accept or a failure is the last one. -/
def steps [TokenSource σ] :
    (count : Nat) → Session σ → List (Except ParseError Step) × Session σ
  | 0, session => ([], session)
  | count + 1, session =>
    match session.step with
    | (.error error, session) => ([.error error], session)
    | (.ok (.accepted tree), session) => ([.ok (.accepted tree)], session)
    | (.ok move, session) =>
      let rest := steps count session
      (.ok move :: rest.1, rest.2)

end Session

end ShiftReduce
