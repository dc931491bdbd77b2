import ShiftReduce.Session
import ShiftReduce.Lexer.Basic
import ShiftReduce.Text.Quoted

/-!
What a session goes through, told step by step: the token that a step pulled where it could not be
read, and then the move itself. The account is read off the session in front of the step, so it
says nothing about a step of a session that has ended.
-/

namespace ShiftReduce

/-- Something a trace tells of. -/
inductive Event where
  | unreadable (text : String) (line : Nat)
  | shift (token : Token) (state : Nat)
  | reduce (rule : Rule) (depth : Nat)
  | accept
  | unexpected (token : Token) (state : Nat)
  deriving DecidableEq, Repr

namespace Event

/-- The wording of an event. -/
def message : Event → String
  | .unreadable text line =>
    "unexpected characters " ++ Text.quoted text ++ " on line " ++ Nat.repr line
  | .shift token state => "shift " ++ token.describe ++ " -> state " ++ Nat.repr state
  | .reduce rule depth => "reduce " ++ rule.render ++ " (depth " ++ Nat.repr depth ++ ")"
  | .accept => "accept"
  | .unexpected token state =>
    "unexpected " ++ token.describe ++ " in state " ++ Nat.repr state

/-- The line of a trace that tells of an event. -/
def line (event : Event) : String := "[smiley] " ++ event.message

end Event

/-- What reading a token gives rise to: an event if its text fits no kind. -/
def Token.events (token : Token) : List Event :=
  if token.kind = .unknown then [.unreadable (token.text.getD "") token.line] else []

namespace Session

variable {σ : Type} [TokenSource σ]

/-- What reading the next token gives rise to, if the next step has to pull it. -/
def pullEvents (session : Session σ) : List Event :=
  match session.lookahead with
  | some _ => []
  | none => session.peek.1.events

/-- The move that the next step makes or attempts. A reduction by a rule that the table lacks fails
before it is one. -/
def moveEvents (session : Session σ) : List Event :=
  let state := session.stack.topState
  let token := session.peek.1
  match session.table.action state token.kind with
  | .shift next => [.shift token next]
  | .reduce index =>
    match session.table.rule? index with
    | some rule => [.reduce rule session.stack.depth]
    | none => []
  | .accept => [.accept]
  | .error => [.unexpected token state]

/-- Everything that happens in the next step. -/
def events (session : Session σ) : List Event :=
  if session.finished then [] else session.pullEvents ++ session.moveEvents

/-- Everything that happens until the session accepts or fails, in at most `limit` steps. -/
def trace : (limit : Nat) → Session σ → List Event
  | 0, _ => []
  | limit + 1, session =>
    session.events ++
      match session.step with
      | (.ok (.shifted _), session) => trace limit session
      | (.ok (.reduced _ _), session) => trace limit session
      | _ => []

end Session

end ShiftReduce
