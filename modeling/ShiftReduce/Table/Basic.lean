import ShiftReduce.Rule

/-!
Parse tables. A row describes one automaton state by the entries it defines: an action per
lookahead terminal and a successor state per nonterminal. Rows are written as lists of entries in
any order; where a row names one key twice the later entry wins, and whatever a row leaves out,
like every state beyond the last row, is an error. Reading a table therefore never fails, and the
terminals a state expects are read off its actions.
-/

namespace ShiftReduce

/-- What the automaton does in a state on a lookahead. -/
inductive Action where
  | shift (state : Nat)
  | reduce (rule : Nat)
  | accept
  | error
  deriving DecidableEq, Repr, Inhabited

/-- The text of an action in a table cell; an error leaves its cell empty. -/
def Action.name : Action → String
  | .shift state => "s" ++ Nat.repr state
  | .reduce rule => "r" ++ Nat.repr rule
  | .accept => "acc"
  | .error => ""

/-- The value of the last entry for a key. -/
def lastEntry {κ α : Type} [BEq κ] (entries : List (κ × α)) (key : κ) : Option α :=
  entries.reverse.lookup key

/-- The entries of one state. -/
structure Row where
  actions : List (Terminal × Action) := []
  gotos : List (Nonterminal × Nat) := []
  deriving DecidableEq, Repr

/-- The rules that reductions name, and a row for every state. -/
structure Table where
  rules : List Rule
  rows : List Row
  deriving DecidableEq, Repr

namespace Row

/-- The action a row gives for a lookahead. -/
def action (row : Row) (kind : Terminal) : Action :=
  (lastEntry row.actions kind).getD .error

/-- The state a row goes to over a nonterminal. -/
def goto? (row : Row) (kind : Nonterminal) : Option Nat :=
  lastEntry row.gotos kind

end Row

namespace Table

/-- The row of a state; states beyond the table have an empty row. -/
def row (table : Table) (state : Nat) : Row :=
  (table.rows[state]?).getD {}

/-- What to do in `state` when `kind` comes next. -/
def action (table : Table) (state : Nat) (kind : Terminal) : Action :=
  (table.row state).action kind

/-- Where `state` leads once a `kind` has been built on top of it. -/
def goto? (table : Table) (state : Nat) (kind : Nonterminal) : Option Nat :=
  (table.row state).goto? kind

/-- The rule that reductions call by this number. -/
def rule? (table : Table) (index : Nat) : Option Rule :=
  table.rules[index]?

/-- The terminals on which `state` does something, in column order. -/
def expected (table : Table) (state : Nat) : List Terminal :=
  Terminal.all.filter fun kind => table.action state kind != .error

theorem mem_expected {table : Table} {state : Nat} {kind : Terminal} :
    kind ∈ table.expected state ↔ table.action state kind ≠ .error := by
  simp [expected, Terminal.mem_all]

end Table

/-! ### Entries -/

@[simp] theorem lastEntry_nil {κ α : Type} [BEq κ] (key : κ) :
    lastEntry ([] : List (κ × α)) key = none := rfl

/-- An entry added at the end hides every earlier one for its key. -/
theorem lastEntry_concat {κ α : Type} [BEq κ] (entries : List (κ × α)) (key key' : κ) (value : α) :
    lastEntry (entries ++ [(key', value)]) key =
      if key == key' then some value else lastEntry entries key := by
  by_cases h : (key == key') <;> simp [lastEntry, List.lookup_cons, h]

end ShiftReduce
