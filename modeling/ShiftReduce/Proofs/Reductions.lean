import ShiftReduce.Proofs.Entries
import ShiftReduce.Proofs.Kernels

/-!
How many reductions follow one another. Every reduction spends an entry of the stack, if only in
the books: one that takes off two trees or more leaves an entry less, and one that takes off a
single tree or none leaves a symbol on top by which more of the entries count as spent. Shifts lay
a symbol on top by which none is spent, so a row of reductions is never longer than the stack was
deep in front of it.
-/

namespace ShiftReduce

/-- The weight of the symbol on top of a stack. -/
def Stack.topWeight (weight : Symbol → Nat) (stack : Stack) : Nat :=
  match stack.above.head?.bind StackEntry.tree with
  | none => 0
  | some tree => weight tree.symbol

@[simp] theorem Stack.topWeight_push (weight : Symbol → Nat) (stack : Stack) (state : Nat)
    (tree : ParseTree) : (stack.push state (some tree)).topWeight weight = weight tree.symbol := rfl

/-- The weight of a symbol is how many entries are spent while it is on top. There are never fewer,
since a state lies at least `floor` deep, and every reduction spends at least one. -/
structure Table.Spends (table : Table) (weight : Symbol → Nat) (floor : Nat → Nat) : Prop where
  start : floor 0 = 0
  shifts_first : ∀ kind index, table.action 0 kind ≠ .reduce index
  deeper : ∀ state symbol next, table.next? state symbol = some next →
    floor next ≤ floor state + 1 ∧ weight symbol ≤ floor next
  spends : ∀ state symbol next, table.next? state symbol = some next →
    ∀ kind index, table.action next kind = .reduce index → ∀ rule, table.rule? index = some rule →
      weight symbol + 2 ≤ weight (.nonterminal rule.head) + rule.arity

namespace Linked

variable {table : Table} {weight : Symbol → Nat} {floor : Nat → Nat}

/-- A linked stack is at least as deep as the floor of its top state, and has the entries that are
spent. -/
theorem floor_le_depth (spends : table.Spends weight floor) {above : List StackEntry}
    (linked : Linked table above) : floor (Stack.mk above).topState ≤ above.length ∧
      (Stack.mk above).topWeight weight ≤ above.length := by
  induction linked with
  | nil => exact ⟨Nat.le_of_eq spends.start, Nat.le_refl 0⟩
  | @cons below state tree rest edge ih =>
    obtain ⟨hfloor, hweight⟩ := spends.deeper _ _ _ edge
    have hdepth : floor state ≤ below.length + 1 :=
      Nat.le_trans hfloor (Nat.succ_le_succ ih.1)
    exact ⟨hdepth, Nat.le_trans hweight hdepth⟩

/-- Where a state reduces, the weight on top leaves two entries unspent that the rule takes off or
that what it builds spends. -/
theorem topWeight_add_two_le (spends : table.Spends weight floor) {stack : Stack}
    (linked : Linked table stack.above) {kind : Terminal} {index : Nat} {rule : Rule}
    (action : table.action stack.topState kind = .reduce index)
    (lookup : table.rule? index = some rule) :
    stack.topWeight weight + 2 ≤ weight (.nonterminal rule.head) + rule.arity := by
  obtain ⟨above⟩ := stack
  cases linked with
  | nil => exact absurd action (spends.shifts_first kind index)
  | cons rest edge => exact spends.spends _ _ _ edge kind index action rule lookup

end Linked

namespace Session

variable {σ : Type} [TokenSource σ] {table : Table} {weight : Symbol → Nat} {floor : Nat → Nat}

/-- Whether the next step is a reduction. -/
def Reduces (session : Session σ) : Prop :=
  ∃ index state, session.step.1 = .ok (.reduced index state)

instance (session : Session σ) : Decidable session.Reduces :=
  match h : session.step.1 with
  | .ok (.reduced index state) => isTrue ⟨index, state, h⟩
  | .ok (.shifted _) => isFalse fun ⟨_, _, reduces⟩ => by rw [h] at reduces; cases reduces
  | .ok (.accepted _) => isFalse fun ⟨_, _, reduces⟩ => by rw [h] at reduces; cases reduces
  | .error _ => isFalse fun ⟨_, _, reduces⟩ => by rw [h] at reduces; cases reduces

/-- A session that reduces has not ended, and goes on. -/
theorem Reduces.unfinished {session : Session σ} (reduces : session.Reduces) :
    session.finished = false ∧ session.step.2.finished = false := by
  obtain ⟨index, state, hanswer⟩ := reduces
  cases hfin : session.finished with
  | false =>
    refine ⟨rfl, ?_⟩
    rw [← outcomeOf_step_eq_unfinished hfin, hanswer]
    rfl
  | true =>
    rw [step_of_finished hfin] at hanswer
    cases hanswer

/-- A session over the table whose stack moves of that table have built. -/
structure OnPath (table : Table) (session : Session σ) : Prop where
  table_eq : session.table = table
  linked : Linked table session.stack.above

/-- A reduction leaves the stack linked and spends an entry. -/
theorem OnPath.reduce {session : Session σ} (onPath : OnPath table session)
    (spends : table.Spends weight floor) (reduces : session.Reduces) :
    OnPath table session.step.2 ∧
      session.step.2.stack.depth + session.stack.topWeight weight + 1 ≤
        session.stack.depth + session.step.2.stack.topWeight weight := by
  obtain ⟨hunfinished, hnext⟩ := reduces.unfinished
  obtain ⟨index, state, hanswer⟩ := reduces
  obtain ⟨rfl, hlinked⟩ := onPath
  refine ⟨⟨table_step session, table_step session ▸ linked_step hnext hlinked⟩, ?_⟩
  have heffect := effect_step hunfinished
  generalize session.step = result at heffect hanswer ⊢
  cases heffect with
  | @reduce _ _ rule children below action lookup pops goto =>
    rw [peek_table, peek_stack] at action
    rw [peek_table] at lookup
    rw [peek_stack] at pops
    have hspends := hlinked.topWeight_add_two_le spends action lookup
    obtain ⟨gone, hlength, hentries⟩ := Stack.entries_of_popMany pops
    have hdepth := congrArg List.length hentries
    rw [List.length_append, Stack.length_entries, Stack.length_entries, hlength] at hdepth
    rw [Stack.depth_push, Stack.topWeight_push, ParseTree.symbol]
    omega
  | _ => cases hanswer

/-- A row of reductions is no longer than there are unspent entries in front of it. -/
theorem OnPath.count_add_topWeight_le (spends : table.Spends weight floor) {count : Nat}
    {session : Session σ} (onPath : OnPath table session)
    (reduces : ∀ i < count, (session.after i).Reduces) :
    count + session.stack.topWeight weight ≤ session.stack.depth := by
  induction count generalizing session with
  | zero =>
    rw [Nat.zero_add]
    exact (onPath.linked.floor_le_depth spends).2
  | succ count ih =>
    obtain ⟨hnext, hspent⟩ := onPath.reduce spends (reduces 0 (Nat.succ_pos count))
    have hrest := ih hnext fun i hi => reduces (i + 1) (Nat.succ_lt_succ hi)
    omega

end Session

namespace Language

variable {σ : Type} [TokenSource σ]

/-- The higher a level of expression, the more reductions have led up to it without taking anything
off. An alternative may stand for nothing at all. -/
def weight : Symbol → Nat
  | .nonterminal .block | .nonterminal .statement | .nonterminal .factor => 1
  | .nonterminal .product => 2
  | .nonterminal .sum | .nonterminal .alternative => 3
  | .nonterminal .comparison => 4
  | .nonterminal .conjunction => 5
  | .nonterminal .disjunction => 6
  | _ => 0

/-- States are numbered by how deep they lie at least: up to 15 in front of a statement or right
behind its first symbol, up to 23 behind its second, and then in expressions. -/
def floor : Nat → Nat
  | 0 => 0
  | 1 | 2 => 1
  | 3 => 2
  | 4 => 3
  | state => if state ≤ 15 then 4 else if state ≤ 23 then 5 else 6

theorem spends_check : ∀ state < rows.length, ∀ symbol, ∀ next ∈ table.next? state symbol,
    (floor next ≤ floor state + 1 ∧ weight symbol ≤ floor next) ∧
      ∀ kind, ∀ index ∈ (table.action next kind).reduce?, ∀ rule ∈ table.rule? index,
        weight symbol + 2 ≤ weight (.nonterminal rule.head) + rule.arity := by
  decide +kernel

theorem spends : table.Spends weight floor where
  start := rfl
  shifts_first := by
    have hcheck : ∀ kind, (table.action 0 kind).reduce? = none := by decide
    intro kind index haction
    have hnone := hcheck kind
    rw [haction] at hnone
    cases hnone
  deeper state symbol next h := (spends_check state (Table.lt_of_next? h) symbol next h).1
  spends state symbol next h kind index action rule lookup :=
    (spends_check state (Table.lt_of_next? h) symbol next h).2 kind index (by rw [action]; rfl) rule
      lookup

/-- Whether a rule has nothing or a single nonterminal on its right-hand side. -/
def isUnitOrEmpty (rule : Rule) : Bool :=
  match rule.body with
  | [] | [.nonterminal _] => true
  | _ => false

/-- A row of reductions with no shift between them is no longer than the stack is deep in front of
the first, whatever the tokens. -/
theorem reductions_le_depth (source : σ) {n count : Nat}
    (reduces : ∀ i < count, ((Session.start table source).after (n + i)).Reduces) :
    let depth := ((Session.start table source).after n).stack.depth
    count ≤ depth ∧ count ≤ depth + rules.countP isUnitOrEmpty := by
  intro depth
  suffices hdepth : count ≤ depth from ⟨hdepth, Nat.le_trans hdepth (Nat.le_add_right _ _)⟩
  obtain rfl | hpos := Nat.eq_zero_or_pos count
  · exact Nat.zero_le depth
  · have hunfinished := (reduces 0 hpos).unfinished.1
    have honPath : Session.OnPath table ((Session.start table source).after n) :=
      ⟨Session.table_after _ n, Session.linked_after table source n hunfinished⟩
    refine Nat.le_of_add_right_le (honPath.count_add_topWeight_le spends fun i hi => ?_)
    rw [← Session.after_add]
    exact reduces i hi

/-- Behind a condition that is a single name, six reductions follow at depth six. -/
theorem reductions_le_depth_condition :
    let session := (Session.start table (Script.ofList [.bare .prog 1, ⟨.ident, some "tiny", 1⟩,
      .bare .colon 1, .bare .ifWord 2, .bare .leftParen 2, ⟨.ident, some "x", 2⟩,
      .bare .rightParen 2])).after 6
    session.stack.depth = 6 ∧ (∀ i < 6, (session.after i).Reduces) ∧ 6 ≤ session.stack.depth := by
  intro session
  have hreduces : ∀ i < 6, (session.after i).Reduces := by decide +kernel
  refine ⟨rfl, hreduces, (reductions_le_depth _ fun i hi => ?_).1⟩
  rw [Session.after_add]
  exact hreduces i hi

end Language

end ShiftReduce
