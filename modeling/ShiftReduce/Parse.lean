import ShiftReduce.Session
import ShiftReduce.Lexer.Basic
import ShiftReduce.Language.States

/-!
Parsing with the language's own table. From any source a parse may go on for a given number of
steps. Between two shifts the automaton makes only so many reductions, so for a finite source the
number of tokens to come bounds the number of steps, and a parse with that many to go has always
ended. Reporting parses alike and also says, once, what went wrong and on which line.
-/

namespace ShiftReduce

/-- Runs the language's automaton over a source for at most `limit` steps. -/
def parseWithin {σ : Type} [TokenSource σ] (limit : Nat) (source : σ) : Outcome × Session σ :=
  (Session.start Language.table source).run limit

/-- What is said about a failure. -/
structure Report where
  line : Nat
  category : Category
  message : String
  deriving DecidableEq, Repr

/-- A failure is reported on its own line if it has one, and else on the line reached. -/
def Report.of (error : ParseError) (line : Nat) : Report :=
  ⟨error.line?.getD line, error.category, error.message⟩

/-- Parses like `parseWithin` and hands out what there is to report. -/
def parseReportingWithin {σ : Type} [TokenSource σ] (limit : Nat) (source : σ) :
    Outcome × List Report :=
  match parseWithin limit source with
  | (.failed error, session) => (.failed error, [.of error session.line])
  | (outcome, _) => (outcome, [])

/-! ### Finite sources -/

/-- Enough steps to parse that many tokens and the end behind them. -/
def stepBound (tokens : Nat) : Nat := 7 * tokens + 1

/-- Enough steps to parse a finite source. -/
def stepsFor {σ : Type} [FiniteSource σ] (source : σ) : Nat :=
  stepBound (FiniteSource.remaining source)

def parse {σ : Type} [FiniteSource σ] (source : σ) : Outcome :=
  (parseWithin (stepsFor source) source).1

def parseReporting {σ : Type} [FiniteSource σ] (source : σ) : Outcome × List Report :=
  parseReportingWithin (stepsFor source) source

def parseTokens (tokens : List Token) : Outcome := parse (Script.ofList tokens)

def parseText (text : String) : Outcome := parse (Lexer.ofString text)

end ShiftReduce
