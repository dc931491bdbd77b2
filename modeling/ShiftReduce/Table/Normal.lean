import ShiftReduce.Table.Basic

/-!
Different ways to write one table. Two tables agree when they say the same of every state and their
rules do the same; the order of a row's entries, entries that a later one hides, explicit errors and
the symbols named on right-hand sides are then left open. The normal form of a table writes none of
what is hidden and no explicit error, and the table agrees with it. An explicit error goes only
after it has hidden what stands in front of it.
-/

namespace ShiftReduce

/-- What a reduction uses of a rule: what it builds, and out of how many entries. -/
def Rule.effect (rule : Rule) : Nonterminal × Nat := (rule.head, rule.arity)

/-- Two tables of as many states that give the same actions and successors everywhere, with rules of
the same effects. -/
structure Table.Agrees (left right : Table) : Prop where
  states : left.rows.length = right.rows.length
  action : ∀ state kind, left.action state kind = right.action state kind
  goto : ∀ state kind, left.goto? state kind = right.goto? state kind
  rules : left.rules.map Rule.effect = right.rules.map Rule.effect

namespace Table.Agrees

variable {left right : Table}

theorem expected (agrees : left.Agrees right) (state : Nat) :
    left.expected state = right.expected state := by
  simp only [Table.expected, agrees.action]

/-- Rules of one number are there in both tables or in neither, and then have the same effect. -/
theorem rule (agrees : left.Agrees right) (index : Nat) :
    (left.rule? index).map Rule.effect = (right.rule? index).map Rule.effect := by
  have hrules := congrArg (·[index]?) agrees.rules
  rw [List.getElem?_map, List.getElem?_map] at hrules
  exact hrules

theorem rule_of_some (agrees : left.Agrees right) {index : Nat} {rule : Rule}
    (lookup : left.rule? index = some rule) :
    ∃ other, right.rule? index = some other ∧ other.head = rule.head ∧
      other.arity = rule.arity := by
  have heffect := agrees.rule index
  rw [lookup, Option.map_some] at heffect
  obtain ⟨other, hother, heq⟩ := Option.map_eq_some_iff.mp heffect.symm
  obtain ⟨hhead, harity⟩ := Prod.mk.inj heq
  exact ⟨other, hother, hhead, harity⟩

theorem rule_of_none (agrees : left.Agrees right) {index : Nat}
    (lookup : left.rule? index = none) : right.rule? index = none := by
  have heffect := agrees.rule index
  rw [lookup, Option.map_none] at heffect
  exact Option.map_eq_none_iff.mp heffect.symm

end Table.Agrees

/-! ### Entries that nothing hides -/

section Entries

variable {κ α : Type} [BEq κ]

/-- The entries whose key does not come again behind them. -/
def unshadowed : List (κ × α) → List (κ × α)
  | [] => []
  | entry :: entries =>
    if entries.any (fun later => later.1 == entry.1) then unshadowed entries
    else entry :: unshadowed entries

theorem unshadowed_sublist (entries : List (κ × α)) : (unshadowed entries).Sublist entries := by
  induction entries with
  | nil => exact .slnil
  | cons entry entries ih =>
    rw [unshadowed]
    split
    · exact ih.cons entry
    · exact ih.cons_cons entry

theorem lastEntry_cons (entry : κ × α) (entries : List (κ × α)) (key : κ) :
    lastEntry (entry :: entries) key =
      (lastEntry entries key).or (if key == entry.1 then some entry.2 else none) := by
  rw [lastEntry, List.reverse_cons, List.lookup_append, List.lookup_cons, List.lookup_nil]
  cases key == entry.1 <;> rfl

variable [LawfulBEq κ]

/-- The keys left are all different. -/
theorem keys_unshadowed (entries : List (κ × α)) : ((unshadowed entries).map Prod.fst).Nodup := by
  induction entries with
  | nil => exact .nil
  | cons entry entries ih =>
    rw [unshadowed]
    split
    · exact ih
    · rename_i hlast
      refine List.nodup_cons.mpr ⟨fun mem => hlast ?_, ih⟩
      obtain ⟨later, hlater, hkey⟩ := List.mem_map.mp mem
      exact List.any_eq_true.mpr
        ⟨later, (unshadowed_sublist entries).subset hlater, beq_iff_eq.mpr hkey⟩

/-- There is a last entry for a key if there is any. -/
theorem lastEntry_isSome {entries : List (κ × α)} {key : κ} :
    (lastEntry entries key).isSome = entries.any fun entry => entry.1 == key := by
  induction entries with
  | nil => rfl
  | cons entry entries ih =>
    rw [lastEntry_cons, Option.isSome_or, ih, List.any_cons, Bool.or_comm, Bool.beq_comm]
    cases entry.1 == key <;> simp

theorem lastEntry_eq_none {entries : List (κ × α)} {key : κ}
    (absent : key ∉ entries.map Prod.fst) : lastEntry entries key = none := by
  rw [← Option.not_isSome_iff_eq_none, lastEntry_isSome, List.any_eq_true]
  rintro ⟨entry, mem, hkey⟩
  exact absent (List.mem_map.mpr ⟨entry, mem, beq_iff_eq.mp hkey⟩)

/-- What no look-up finds can go. -/
theorem lastEntry_unshadowed (entries : List (κ × α)) (key : κ) :
    lastEntry (unshadowed entries) key = lastEntry entries key := by
  induction entries with
  | nil => rfl
  | cons entry entries ih =>
    rw [unshadowed, lastEntry_cons]
    split
    · rename_i hlater
      by_cases hkey : key = entry.1
      · rw [← lastEntry_isSome, ← hkey] at hlater
        rw [ih, Option.or_of_isSome hlater]
      · rw [ih, if_neg (by simpa using hkey), Option.or_none]
    · rw [lastEntry_cons, ih]

/-- Where the keys are different, every entry is the one that a look-up finds. -/
theorem mem_iff_lastEntry {entries : List (κ × α)} (distinct : (entries.map Prod.fst).Nodup)
    (entry : κ × α) : entry ∈ entries ↔ lastEntry entries entry.1 = some entry.2 := by
  induction entries with
  | nil => simp
  | cons first entries ih =>
    obtain ⟨hfirst, hrest⟩ := List.nodup_cons.mp distinct
    rw [List.mem_cons, ih hrest, lastEntry_cons]
    obtain ⟨key, value⟩ := entry
    by_cases hkey : key = first.1
    · subst hkey
      rw [lastEntry_eq_none hfirst]
      simp [Prod.ext_iff, eq_comm]
    · simp [hkey, Prod.ext_iff]

/-- Where the keys are different, an entry with the value that absent ones have can go too. -/
theorem lastEntry_filter [DecidableEq α] (default : α) {entries : List (κ × α)}
    (distinct : (entries.map Prod.fst).Nodup) (key : κ) :
    (lastEntry (entries.filter fun entry => entry.2 ≠ default) key).getD default =
      (lastEntry entries key).getD default := by
  induction entries with
  | nil => rfl
  | cons entry entries ih =>
    obtain ⟨hfirst, hrest⟩ := List.nodup_cons.mp distinct
    have hlater := ih hrest
    by_cases hkey : key = entry.1
    · -- no later entry is for the key, before or after the filtering
      subst hkey
      have hfiltered : entry.1 ∉
          (entries.filter fun entry => entry.2 ≠ default).map Prod.fst :=
        fun mem => hfirst (((List.filter_sublist).map Prod.fst).subset mem)
      by_cases hvalue : entry.2 = default
      · rw [List.filter_cons_of_neg (by simpa using hvalue), lastEntry_cons,
          lastEntry_eq_none hfiltered, lastEntry_eq_none hfirst]
        simp [hvalue]
      · rw [List.filter_cons_of_pos (by simpa using hvalue), lastEntry_cons, lastEntry_cons,
          lastEntry_eq_none hfiltered, lastEntry_eq_none hfirst]
    · have hother : (if key == entry.1 then some entry.2 else none) = none :=
        if_neg (by simpa using hkey)
      rw [lastEntry_cons, hother, Option.or_none, ← hlater]
      by_cases hvalue : entry.2 = default
      · rw [List.filter_cons_of_neg (by simpa using hvalue)]
      · rw [List.filter_cons_of_pos (by simpa using hvalue), lastEntry_cons, hother, Option.or_none]

end Entries

/-! ### Normal forms -/

/-- The row without what it hides and without explicit errors. -/
def Row.normal (row : Row) : Row :=
  ⟨(unshadowed row.actions).filter fun entry => entry.2 ≠ .error, unshadowed row.gotos⟩

/-- The table with every row in normal form. -/
def Table.normal (table : Table) : Table := { table with rows := table.rows.map Row.normal }

theorem Row.action_normal (row : Row) (kind : Terminal) :
    row.normal.action kind = row.action kind := by
  rw [action, normal, lastEntry_filter .error (keys_unshadowed row.actions), lastEntry_unshadowed,
    action]

theorem Row.goto?_normal (row : Row) (kind : Nonterminal) :
    row.normal.goto? kind = row.goto? kind :=
  lastEntry_unshadowed row.gotos kind

/-- A normal row names each key once. -/
theorem Row.normal_distinct (row : Row) :
    (row.normal.actions.map Prod.fst).Nodup ∧ (row.normal.gotos.map Prod.fst).Nodup := by
  refine ⟨?_, keys_unshadowed row.gotos⟩
  exact (keys_unshadowed row.actions).sublist ((List.filter_sublist).map Prod.fst)

theorem Row.normal_sublist (row : Row) :
    row.normal.actions.Sublist row.actions ∧ row.normal.gotos.Sublist row.gotos :=
  ⟨List.filter_sublist.trans (unshadowed_sublist row.actions), unshadowed_sublist row.gotos⟩

/-- What a normal row writes is what the row does, apart from its errors. -/
theorem Row.mem_normal_actions (row : Row) (kind : Terminal) (action : Action) :
    (kind, action) ∈ row.normal.actions ↔ row.action kind = action ∧ action ≠ .error := by
  rw [normal, List.mem_filter, mem_iff_lastEntry (keys_unshadowed row.actions),
    lastEntry_unshadowed, Row.action, decide_eq_true_iff]
  refine and_congr_left fun herror => ?_
  cases lastEntry row.actions kind with
  | none => simpa using Ne.symm herror
  | some found => simp

theorem Row.mem_normal_gotos (row : Row) (kind : Nonterminal) (state : Nat) :
    (kind, state) ∈ row.normal.gotos ↔ row.goto? kind = some state := by
  rw [normal, mem_iff_lastEntry (keys_unshadowed row.gotos), lastEntry_unshadowed, goto?]

namespace Table

theorem row_normal (table : Table) (state : Nat) :
    table.normal.row state = (table.row state).normal := by
  rw [row, normal, List.getElem?_map, row]
  cases table.rows[state]? <;> rfl

theorem agrees_normal (table : Table) : table.Agrees table.normal where
  states := (List.length_map _).symm
  action state kind := by rw [action, action, row_normal, Row.action_normal]
  goto state kind := by rw [goto?, goto?, row_normal, Row.goto?_normal]
  rules := rfl

end Table

/-- The error hides the shift in front of it, so neither is left. -/
example : (Row.normal ⟨[(.done, .shift 1), (.prog, .accept), (.done, .error)], []⟩).actions =
    [(.prog, .accept)] := rfl

end ShiftReduce
