import ShiftReduce.Table.Basic
import ShiftReduce.Text.Lines

/-!
Tables as grids of cells, title row first. The state grid has one row per state and one column
per terminal and nonterminal; the rule grid lists the rules with their arity. An error and an
entry that is not there both leave their cell empty, so the state grid shows exactly what the
automaton does. The sheet is the state grid as text.
-/

namespace ShiftReduce

/-- The cell that shows a value, if there is one. -/
def cellOf {α : Type} (render : α → String) (value : Option α) : String := value.elim "" render

namespace Row

/-- The cells of a state, terminals before nonterminals. Each shows the entry that the row has for
its column. -/
def cells (row : Row) : List String :=
  Terminal.all.map (fun kind => cellOf Action.name (lastEntry row.actions kind)) ++
    Nonterminal.all.map (fun kind => cellOf Nat.repr (lastEntry row.gotos kind))

end Row

namespace Table

/-- The titles of the state grid. -/
def stateTitles : List String :=
  "#" :: (Terminal.all.map Terminal.name ++ Nonterminal.all.map Nonterminal.name)

/-- The automaton, one row of cells per state. -/
def stateGrid (table : Table) : List (List String) :=
  stateTitles :: table.rows.mapIdx fun state row => Nat.repr state :: row.cells

/-- The state grid as lines of cells with commas between. The cells are names and numbers, in which
there is neither a comma nor a quote, so they stand as they are. -/
def sheet (table : Table) : String :=
  Text.unlines (table.stateGrid.map (String.intercalate ","))

/-- The grammar, one row of cells per rule. -/
def ruleGrid (table : Table) : List (List String) :=
  ["#", "Production rule", "Arity"] ::
    table.rules.mapIdx fun index rule => [Nat.repr index, rule.render, Nat.repr rule.arity]

end Table

end ShiftReduce
