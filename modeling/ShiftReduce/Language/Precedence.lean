import ShiftReduce.Tree.Derivation

/-!
How operators bind. In a chain of operands every binary operator stands between two of them; the
chain is grouped at the last of its loosest operators, and either side of it in the same way. So a
looser operator takes all that the tighter ones have made, and operators of one kind group from the
left. The trees of the grammar show the same once the nodes are collapsed that only climb from one
level to the next looser.
-/

namespace ShiftReduce

/-! ### The last entry with a property -/

section SplitLast

variable {α β : Type} {p : α → Bool} {entries front back : List α} {last : α}

/-- The list cut at the last of its entries with the property. -/
def splitLast? (p : α → Bool) : List α → Option (List α × α × List α)
  | [] => none
  | entry :: entries =>
    match splitLast? p entries with
    | some (front, last, back) => some (entry :: front, last, back)
    | none => if p entry then some ([], entry, entries) else none

theorem splitLast?_eq_none : splitLast? p entries = none ↔ ∀ entry ∈ entries, p entry = false := by
  induction entries with
  | nil => simp [splitLast?]
  | cons entry entries ih =>
    rw [splitLast?, List.forall_mem_cons]
    cases hsplit : splitLast? p entries with
    | some found => simp [← ih, hsplit]
    | none => simp [← ih, hsplit]

theorem splitLast?_eq_some (h : splitLast? p entries = some (front, last, back)) :
    entries = front ++ last :: back ∧ p last = true ∧ ∀ entry ∈ back, p entry = false := by
  induction entries generalizing front with
  | nil => cases h
  | cons entry entries ih =>
    rw [splitLast?] at h
    cases hsplit : splitLast? p entries with
    | some found =>
      obtain ⟨more, last, back⟩ := found
      rw [hsplit] at h
      cases h
      obtain ⟨rfl, hlast, hback⟩ := ih hsplit
      exact ⟨rfl, hlast, hback⟩
    | none =>
      simp only [hsplit] at h
      split at h
      · cases h
        exact ⟨rfl, ‹_›, splitLast?_eq_none.mp hsplit⟩
      · cases h

theorem splitLast?_map (f : α → β) (p : β → Bool) (entries : List α) :
    splitLast? p (entries.map f) = (splitLast? (fun entry => p (f entry)) entries).map
      fun (front, last, back) => (front.map f, f last, back.map f) := by
  induction entries with
  | nil => rfl
  | cons entry entries ih =>
    rw [List.map_cons, splitLast?, splitLast?, ih]
    cases splitLast? (fun entry => p (f entry)) entries with
    | some found => rfl
    | none => cases p (f entry) <;> rfl

end SplitLast

namespace Language

/-! ### Chains -/

/-- The binary operators with the nonterminals they build, the loosest first. -/
def levels : List (Terminal × Nonterminal) :=
  [(.orOp, .disjunction), (.andOp, .conjunction), (.compareOp, .comparison), (.addOp, .sum),
    (.mulOp, .product)]

/-- A derivation of an operand: a name, a literal, an expression in parentheses, or another operand
with a unary operator. -/
def IsOperand (tree : ParseTree) : Prop :=
  Derivation rules tree ∧ tree.symbol = .nonterminal .factor
  deriving Decidable

/-- An operator and the operand to its right. -/
structure Link where
  operator : Token
  operand : ParseTree
  deriving DecidableEq, Repr

/-- The tokens of a chain. -/
def spelled (first : ParseTree) (links : List Link) : List Token :=
  first.leaves ++ links.flatMap fun link => link.operator :: link.operand.leaves

/-- The last of the loosest operators in a chain, with what it builds and the links on either
side. -/
def loosest? (links : List Link) : Option (Nonterminal × List Link × Link × List Link) :=
  levels.findSome? fun level =>
    (splitLast? (fun link => link.operator.kind = level.1) links).map fun found => (level.2, found)

variable {head : Nonterminal} {links front back : List Link} {link : Link}

/-- A chain that is not split at some levels has none of their operators. -/
theorem not_mem_of_splitLast {coarser : List (Terminal × Nonterminal)}
    (h : ∀ level ∈ coarser,
      splitLast? (fun link : Link => link.operator.kind = level.1) links = none) :
    ∀ link ∈ links, link.operator.kind ∉ coarser.map Prod.fst := by
  intro link mem found
  obtain ⟨level, hlevel, hkind⟩ := List.mem_map.mp found
  exact of_decide_eq_false (splitLast?_eq_none.mp (h level hlevel) link mem) hkind.symm

theorem loosest?_eq_none (h : loosest? links = none) :
    ∀ link ∈ links, link.operator.kind ∉ levels.map Prod.fst :=
  not_mem_of_splitLast fun level mem =>
    Option.map_eq_none_iff.mp (List.findSome?_eq_none_iff.mp h level mem)

theorem loosest?_eq_some (h : loosest? links = some (head, front, link, back)) :
    links = front ++ link :: back ∧
    (∀ other ∈ back, other.operator.kind ≠ link.operator.kind) ∧
    ∃ coarser finer, levels = coarser ++ (link.operator.kind, head) :: finer ∧
      ∀ other ∈ links, other.operator.kind ∉ coarser.map Prod.fst := by
  obtain ⟨coarser, ⟨kind, _⟩, finer, hlevels, hfound, hcoarser⟩ := List.findSome?_eq_some_iff.mp h
  obtain ⟨found, hsplit, hcons⟩ := Option.map_eq_some_iff.mp hfound
  cases hcons
  obtain ⟨hlinks, hkind, hback⟩ := splitLast?_eq_some hsplit
  obtain rfl : link.operator.kind = kind := of_decide_eq_true hkind
  exact ⟨hlinks, fun other mem => of_decide_eq_false (hback other mem), coarser, finer, hlevels,
    not_mem_of_splitLast fun level mem => Option.map_eq_none_iff.mp (hcoarser level mem)⟩

/-- The chain grouped at the last of its loosest operators, and so on both sides. -/
def grouped (first : ParseTree) (links : List Link) : ParseTree :=
  match _split : loosest? links with
  | none => first
  | some (head, front, link, back) =>
    .node head [grouped first front, .leaf link.operator, grouped link.operand back]
termination_by links.length
decreasing_by
  all_goals
    rw [(loosest?_eq_some _split).1, List.length_append, List.length_cons]
    omega

theorem grouped_of_none {links : List Link} (first : ParseTree) (h : loosest? links = none) :
    grouped first links = first := by
  rw [grouped]
  split
  · rfl
  · rename_i hsome
    cases h.symm.trans hsome

theorem grouped_of_some (first : ParseTree) (h : loosest? links = some (head, front, link, back)) :
    grouped first links =
      .node head [grouped first front, .leaf link.operator, grouped link.operand back] := by
  rw [grouped]
  split
  · rename_i hnone
    cases h.symm.trans hnone
  · rename_i hsome
    cases h.symm.trans hsome
    rfl

/-- Operators of one level group from the left. -/
theorem grouped_of_one_level {level : Terminal × Nonterminal} (mem : level ∈ levels)
    (first : ParseTree) (links : List Link) (same : ∀ link ∈ links, link.operator.kind = level.1) :
    grouped first links = links.foldl
      (fun tree link => .node level.2 [tree, .leaf link.operator, link.operand]) first := by
  have hfunctional : ∀ one ∈ levels, ∀ other ∈ levels, one.1 = other.1 → one.2 = other.2 := by
    decide
  fun_induction grouped first links with
  | case1 first links hnone =>
    cases links with
    | nil => rfl
    | cons link links =>
      have hkind := loosest?_eq_none hnone link List.mem_cons_self
      rw [same link List.mem_cons_self] at hkind
      exact absurd (List.mem_map_of_mem mem) hkind
  | case2 first links head front link back hsome ihFront _ =>
    obtain ⟨rfl, hback, coarser, finer, hlevels, -⟩ := loosest?_eq_some hsome
    obtain ⟨hfront, hrest⟩ := List.forall_mem_append.mp same
    obtain ⟨hlink, hsame⟩ := List.forall_mem_cons.mp hrest
    obtain rfl : back = [] := List.eq_nil_iff_forall_not_mem.mpr fun other found =>
      hback other found ((hsame other found).trans hlink.symm)
    have hhead : head = level.2 := by
      refine hfunctional (link.operator.kind, head) ?_ level mem hlink
      rw [hlevels]
      exact List.mem_append_right _ List.mem_cons_self
    rw [ihFront hfront, grouped_of_none link.operand (by decide), List.foldl_append, hhead]
    rfl

end Language

/-! ### Collapsed trees -/

namespace ParseTree

mutual

/-- The tree without the nodes that only climb from one level of operators to the next looser. -/
def collapse : ParseTree → ParseTree
  | .leaf token => .leaf token
  | .node head children =>
    match collapseAll children with
    | [child] => if head ∈ Language.levels.map Prod.snd then child else .node head [child]
    | children => .node head children

/-- Neighbouring trees without such nodes. -/
def collapseAll : List ParseTree → List ParseTree
  | [] => []
  | tree :: trees => tree.collapse :: collapseAll trees

end

theorem collapse_of_climbs {head : Nonterminal} (climbs : head ∈ Language.levels.map Prod.snd)
    (child : ParseTree) : (node head [child]).collapse = child.collapse := by
  rw [collapse, collapseAll, collapseAll]
  exact if_pos climbs

theorem collapse_leaf (token : Token) : (leaf token).collapse = .leaf token := rfl

/-- A node over an operator stays. -/
theorem collapse_binary (head : Nonterminal) (left operator right : ParseTree) :
    (node head [left, operator, right]).collapse =
      .node head [left.collapse, operator.collapse, right.collapse] := rfl

end ParseTree

namespace Language

/-- The link with its operand collapsed. -/
def Link.collapse (link : Link) : Link := { link with operand := link.operand.collapse }

theorem loosest?_collapse (links : List Link) :
    loosest? (links.map Link.collapse) = (loosest? links).map fun (head, front, link, back) =>
      (head, front.map Link.collapse, link.collapse, back.map Link.collapse) := by
  rw [loosest?, loosest?, List.map_findSome?]
  refine congrArg (List.findSome? · levels) (funext fun level => ?_)
  rw [splitLast?_map Link.collapse, Function.comp, Option.map_map, Option.map_map]
  rfl

/-- Only the operands have nodes to collapse. -/
theorem collapse_grouped (first : ParseTree) (links : List Link) :
    (grouped first links).collapse = grouped first.collapse (links.map Link.collapse) := by
  fun_induction grouped first links with
  | case1 first links hnone =>
    have hcollapse := loosest?_collapse links
    rw [hnone] at hcollapse
    exact (grouped_of_none _ hcollapse).symm
  | case2 first links head front link back hsome ihFront ihBack =>
    have hcollapse := loosest?_collapse links
    rw [hsome] at hcollapse
    rw [grouped_of_some _ hcollapse, ParseTree.collapse_binary, ihFront, ihBack]
    rfl

end Language

end ShiftReduce
