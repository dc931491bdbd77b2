import ShiftReduce.Token

/-!
Token sources: anything that hands out one token after another and never runs dry. A finite source
hands out only end tokens once its input is used up, and it knows a bound on how many other tokens
are still to come; that bound is what makes parsing from it a terminating affair. A script replays
a list of tokens, and a recorded source remembers what was pulled from the source inside it.
-/

namespace ShiftReduce

/-- Anything that hands out token after token. -/
class TokenSource (σ : Type) where
  next : σ → Token × σ

namespace TokenSource

variable {σ : Type} [TokenSource σ]

/-- The source after `count` tokens have been pulled. -/
def after (source : σ) : Nat → σ
  | 0 => source
  | count + 1 => after (next source).2 count

/-- The token that the source hands out after `index` others. -/
def tokenAt (source : σ) (index : Nat) : Token :=
  (next (after source index)).1

/-- The first `count` tokens of a source, and the source after them. -/
def take (source : σ) : Nat → List Token × σ
  | 0 => ([], source)
  | count + 1 =>
    let rest := take (next source).2 count
    ((next source).1 :: rest.1, rest.2)

end TokenSource

/-- A source with a bound on the tokens it still hands out before its first end token. -/
class FiniteSource (σ : Type) extends TokenSource σ where
  remaining : σ → Nat
  remaining_next (source : σ) :
    (next source).1.kind ≠ .endOfInput → remaining (next source).2 < remaining source

/-- The tokens a finite source hands out before its first end token. -/
def FiniteSource.tokens {σ : Type} [FiniteSource σ] (source : σ) : List Token :=
  if (TokenSource.next source).1.kind = .endOfInput then []
  else (TokenSource.next source).1 :: tokens (TokenSource.next source).2
termination_by FiniteSource.remaining source
decreasing_by exact FiniteSource.remaining_next source ‹_›

/-- Behind its tokens a finite source hands out an end token. -/
theorem FiniteSource.take_tokens {σ : Type} [FiniteSource σ] (source : σ) :
    ∃ last : Token, last.kind = .endOfInput ∧
      (TokenSource.take source ((tokens source).length + 1)).1 = tokens source ++ [last] := by
  fun_induction tokens source with
  | case1 source ends => exact ⟨_, ends, rfl⟩
  | case2 source goes ih =>
    obtain ⟨last, hlast, htake⟩ := ih
    refine ⟨last, hlast, ?_⟩
    rw [List.length_cons, TokenSource.take, htake, List.cons_append]

/-! ### Scripts -/

/-- Tokens to replay, and the line on which end tokens follow them. -/
structure Script where
  pending : List Token
  endLine : Nat
  deriving DecidableEq, Repr

namespace Script

/-- The script of a list of tokens ends on the line of the last of them. -/
def ofList (tokens : List Token) : Script :=
  ⟨tokens, (tokens.getLast?.map Token.line).getD 1⟩

/-- The next token of the script, or an end token once it is used up. -/
def next (script : Script) : Token × Script :=
  match script.pending with
  | [] => (.atEnd script.endLine, script)
  | token :: pending => (token, { script with pending })

instance : FiniteSource Script where
  next := next
  remaining script := script.pending.length
  remaining_next script h := by
    obtain ⟨_ | ⟨token, pending⟩, endLine⟩ := script
    · exact absurd rfl h
    · simp [next]

end Script

/-! ### Recorded sources -/

/-- A source together with the tokens pulled from it so far. -/
structure Recorded (σ : Type) where
  inner : σ
  pulled : List Token := []

namespace Recorded

variable {σ : Type}

/-- The next token of the source inside, which is recorded. -/
def next [TokenSource σ] (source : Recorded σ) : Token × Recorded σ :=
  let pulled := TokenSource.next source.inner
  (pulled.1, ⟨pulled.2, source.pulled ++ [pulled.1]⟩)

instance [TokenSource σ] : TokenSource (Recorded σ) where
  next := next

instance [FiniteSource σ] : FiniteSource (Recorded σ) where
  remaining source := FiniteSource.remaining source.inner
  remaining_next source := FiniteSource.remaining_next source.inner

end Recorded

end ShiftReduce
