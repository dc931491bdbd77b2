import ShiftReduce.Table.Grid
import ShiftReduce.Proofs.Labels

/-!
What the grids of a table tell. The first character of an action's name tells its sort, and numbers
are told by their digits, so a row of cells tells what the automaton does in a state; an error that
is written down and one that is not look the same, and so do entries with and without others that
they hide. A rule is read back name by name: no name holds a blank, and none is the sign for an
empty right-hand side. So two tables have the same state grid if they have as many states and do the
same in each, and the same rule grid if they have the same rules.
-/

namespace ShiftReduce

/-! ### Cells -/

/-- The digits of a number, read as a decimal, are the number. -/
theorem ofDigitChars_repr (number : Nat) : Nat.ofDigitChars 10 number.repr.toList 0 = number := by
  rw [Nat.toList_repr, Nat.ofDigitChars_ten_toDigits]

theorem digits_injective {number other : Nat} (h : number.repr = other.repr) : number = other := by
  rw [← ofDigitChars_repr number, h, ofDigitChars_repr]

namespace Action

/-- The character that the name of an action begins with. -/
def mark : Action → Option Char
  | .shift _ => some 's'
  | .reduce _ => some 'r'
  | .accept => some 'a'
  | .error => none

theorem head?_name (action : Action) : action.name.toList.head? = action.mark := by
  cases action <;> simp [name, mark]

theorem name_injective {action other : Action} (h : action.name = other.name) : action = other := by
  have hmark : action.mark = other.mark := by rw [← head?_name, h, head?_name]
  cases action with
  | shift state =>
    cases other with
    | shift state' =>
      rw [name, name, String.append_right_inj] at h
      rw [digits_injective h]
    | _ => cases hmark
  | reduce rule =>
    cases other with
    | reduce rule' =>
      rw [name, name, String.append_right_inj] at h
      rw [digits_injective h]
    | _ => cases hmark
  | accept =>
    cases other with
    | accept => rfl
    | _ => cases hmark
  | error =>
    cases other with
    | error => rfl
    | _ => cases hmark

end Action

/-- A cell of numbers tells its number, or that there is none. -/
theorem cellOf_repr_injective : ∀ {value other : Option Nat},
    cellOf Nat.repr value = cellOf Nat.repr other → value = other
  | none, none, _ => rfl
  | none, some _, h => absurd h.symm Nat.repr_ne_empty
  | some _, none, h => absurd h Nat.repr_ne_empty
  | some _, some _, h => congrArg some (digits_injective h)

namespace Row

/-- An entry that is not there is shown like an error. -/
theorem cellOf_action (row : Row) (kind : Terminal) :
    cellOf Action.name (lastEntry row.actions kind) = (row.action kind).name := by
  rw [action]
  cases lastEntry row.actions kind <;> rfl

/-- The cells of a state tell what it does on every terminal and where it leads over every
nonterminal. -/
theorem cells_eq_iff {row other : Row} : row.cells = other.cells ↔
    (∀ kind, row.action kind = other.action kind) ∧ ∀ kind, row.goto? kind = other.goto? kind := by
  simp only [cells, cellOf_action]
  constructor
  · intro h
    obtain ⟨hactions, hgotos⟩ := List.append_inj h (by rw [List.length_map, List.length_map])
    rw [List.map_inj_left] at hactions hgotos
    exact ⟨fun kind => Action.name_injective (hactions kind kind.mem_all),
      fun kind => cellOf_repr_injective (hgotos kind kind.mem_all)⟩
  · rintro ⟨hactions, hgotos⟩
    have hentries : ∀ kind, lastEntry row.gotos kind = lastEntry other.gotos kind := hgotos
    simp only [hactions, hentries]

end Row

/-! ### Rules -/

namespace Rule

/-- Names one after another, each behind a blank. -/
def words (symbols : List Symbol) : List Char :=
  symbols.flatMap fun symbol => ' ' :: symbol.name.toList

theorem words_cons (symbol : Symbol) (symbols : List Symbol) :
    words (symbol :: symbols) = ' ' :: (symbol.name.toList ++ words symbols) := rfl

theorem head_words : ∀ (symbols : List Symbol), ∀ c ∈ (words symbols).head?, c = ' '
  | [], _, mem => by cases mem
  | _ :: _, _, mem => (Option.some.inj mem).symm

theorem words_injective : ∀ {symbols others : List Symbol},
    words symbols = words others → symbols = others
  | [], [], _ => rfl
  | [], _ :: _, h => by cases h
  | _ :: _, [], h => by cases h
  | symbol :: symbols, other :: others, h => by
    -- whatever names follow, a blank stands in front of them
    rw [words_cons, words_cons] at h
    obtain ⟨rfl, hrest⟩ := Symbol.name_append_injective (head_words symbols) (head_words others)
      (List.cons.inj h).2
    rw [words_injective hrest]

/-- What stands behind the arrow of a rule. -/
def rendered : List Symbol → List Char
  | [] => [' ', 'ε']
  | body => words body

theorem toList_render (rule : Rule) : rule.render.toList =
    (Symbol.nonterminal rule.head).name.toList ++ ' ' :: '→' :: rendered rule.body := by
  obtain ⟨head, arity, _ | ⟨symbol, body⟩⟩ := rule
  · simp [render, rendered, Symbol.name]
  · simp [render, rendered, words, Symbol.name, List.flatMap_map]

theorem no_name_is_empty_sign : ∀ symbol ∈ Symbol.all, symbol.name ≠ "ε" := by decide

/-- No names make up the sign for an empty right-hand side. -/
theorem words_ne_empty_sign (symbols : List Symbol) : words symbols ≠ [' ', 'ε'] := by
  cases symbols with
  | nil => nofun
  | cons symbol symbols =>
    intro h
    have hname : symbol.name.toList ++ words symbols = ['ε'] := (List.cons.inj h).2
    rcases List.append_eq_singleton_iff.mp hname with ⟨hnil, -⟩ | ⟨hsign, -⟩
    · exact symbol.name_ne_nil hnil
    · refine no_name_is_empty_sign symbol symbol.mem_all ?_
      rw [← String.toList_inj, hsign]
      rfl

theorem rendered_injective : ∀ {body other : List Symbol}, rendered body = rendered other →
    body = other
  | [], [], _ => rfl
  | [], _ :: _, h => absurd h.symm (words_ne_empty_sign _)
  | _ :: _, [], h => absurd h (words_ne_empty_sign _)
  | _ :: _, _ :: _, h => words_injective h

/-- The line of a rule tells what it builds and out of which symbols. -/
theorem render_injective {rule other : Rule} (h : rule.render = other.render) :
    rule.head = other.head ∧ rule.body = other.body := by
  rw [← String.toList_inj, toList_render, toList_render] at h
  have hblank : ∀ behind : List Char, ∀ c ∈ (' ' :: behind).head?, c = ' ' :=
    fun _ _ mem => (Option.some.inj mem).symm
  obtain ⟨hhead, hbehind⟩ := Symbol.name_append_injective (hblank _) (hblank _) h
  have hbody : rendered rule.body = rendered other.body := by simpa using hbehind
  exact ⟨Symbol.nonterminal.inj hhead, rendered_injective hbody⟩

theorem eq_of_render {rule other : Rule} (h : rule.render = other.render)
    (arity : rule.arity = other.arity) : rule = other := by
  obtain ⟨hhead, hbody⟩ := render_injective h
  cases rule
  cases other
  rw [Rule.mk.injEq]
  exact ⟨hhead, arity, hbody⟩

end Rule

/-! ### Grids -/

/-- Lists numbered row by row are the same if they are as long and their rows are the same. -/
theorem mapIdx_eq_iff {α β : Type} {row : Nat → α → β} {left right : List α} :
    left.mapIdx row = right.mapIdx row ↔ left.length = right.length ∧
      ∀ index (h : index < left.length) (h' : index < right.length),
        row index left[index] = row index right[index] := by
  simp [List.ext_getElem_iff]

namespace Table

theorem row_of_lt {table : Table} {state : Nat} (lt : state < table.rows.length) :
    table.row state = table.rows[state] := by
  rw [row, List.getElem?_eq_getElem lt, Option.getD_some]

theorem stateGrid_eq_iff {left right : Table} : left.stateGrid = right.stateGrid ↔
    left.rows.length = right.rows.length ∧ ∀ state < left.rows.length,
      (∀ kind, left.action state kind = right.action state kind) ∧
        ∀ kind, left.goto? state kind = right.goto? state kind := by
  rw [stateGrid, stateGrid, List.cons_inj_right, mapIdx_eq_iff]
  refine and_congr_right fun hlength => forall_congr' fun state => ?_
  constructor
  · intro h lt
    have hcells := List.tail_eq_of_cons_eq (h lt (hlength ▸ lt))
    rw [← row_of_lt, ← row_of_lt, Row.cells_eq_iff] at hcells
    exact hcells
  · intro h lt lt'
    rw [← row_of_lt lt, ← row_of_lt lt', Row.cells_eq_iff.mpr (h lt)]

theorem ruleGrid_eq_iff {left right : Table} :
    left.ruleGrid = right.ruleGrid ↔ left.rules = right.rules := by
  rw [ruleGrid, ruleGrid, List.cons_inj_right, mapIdx_eq_iff, List.ext_getElem_iff]
  refine and_congr_right fun _ => forall_congr' fun index => forall_congr' fun lt =>
    forall_congr' fun lt' => ?_
  constructor
  · intro h
    simp only [List.cons.injEq, and_true, true_and] at h
    exact Rule.eq_of_render h.1 (digits_injective h.2)
  · intro h
    rw [h]

/-- The grids show what the states of a table do, however its rows are written, and its rules, and
no more. -/
theorem grids_eq_iff (left right : Table) :
    (left.stateGrid = right.stateGrid ↔ left.rows.length = right.rows.length ∧
      ∀ state < left.rows.length,
        (∀ kind, left.action state kind = right.action state kind) ∧
        ∀ kind, left.goto? state kind = right.goto? state kind) ∧
    (left.ruleGrid = right.ruleGrid ↔ left.rules = right.rules) :=
  ⟨stateGrid_eq_iff, ruleGrid_eq_iff⟩

/-- A shift that an error hides leaves its cell as empty as no entry does. -/
example :
    (Table.mk [] [⟨[(.done, .shift 1), (.done, .error)], [(.block, 2), (.block, 7)]⟩]).stateGrid =
      (Table.mk [] [⟨[], [(.block, 7)]⟩]).stateGrid := rfl

end Table

end ShiftReduce
