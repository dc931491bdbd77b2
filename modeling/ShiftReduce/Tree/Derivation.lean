import ShiftReduce.Tree.Basic
import ShiftReduce.Language.Rules

/-!
Derivation trees, the declarative side of parsing. A tree is a derivation when each of its nodes
applies a rule to exactly the symbols of its children; the kinds at the leaves of such a tree are
a sentence. Nothing here knows of states, lookaheads or a stack.
-/

namespace ShiftReduce

/-- Every node of the tree applies one of the rules to its children. -/
inductive Derivation (rules : List Rule) : ParseTree → Prop where
  | leaf (token : Token) : Derivation rules (.leaf token)
  | node {rule : Rule} {children : List ParseTree} (mem : rule ∈ rules)
      (spells : rule.body = children.map ParseTree.symbol)
      (below : ∀ child ∈ children, Derivation rules child) :
      Derivation rules (.node rule.head children)

namespace Derivation

variable {rules : List Rule}

/-- The rule that a derivation applies at its root. -/
theorem exists_rule {head : Nonterminal} {children : List ParseTree}
    (tree : Derivation rules (.node head children)) :
    ∃ rule ∈ rules, rule.head = head ∧ rule.body = children.map ParseTree.symbol := by
  cases tree with
  | node mem spells _ => exact ⟨_, mem, rfl, spells⟩

theorem of_mem {head : Nonterminal} {children : List ParseTree}
    (tree : Derivation rules (.node head children)) {child : ParseTree} (mem : child ∈ children) :
    Derivation rules child := by
  cases tree with
  | node _ _ below => exact below child mem

/-! ### Derivations can be checked -/

mutual

/-- Whether a tree is a derivation. -/
def check (rules : List Rule) : ParseTree → Bool
  | .leaf _ => true
  | .node head children =>
    (rules.any fun rule => rule.head = head ∧ rule.body = children.map ParseTree.symbol) &&
      checkAll rules children

/-- Whether neighbouring trees all are derivations. -/
def checkAll (rules : List Rule) : List ParseTree → Bool
  | [] => true
  | tree :: trees => check rules tree && checkAll rules trees

end

mutual

theorem of_check : (tree : ParseTree) → check rules tree = true → Derivation rules tree
  | .leaf token, _ => .leaf token
  | .node head children, h => by
    rw [check, Bool.and_eq_true, List.any_eq_true] at h
    obtain ⟨⟨rule, hmem, hrule⟩, hbelow⟩ := h
    obtain ⟨rfl, hspells⟩ := of_decide_eq_true hrule
    exact .node hmem hspells (of_checkAll children hbelow)

theorem of_checkAll : (trees : List ParseTree) → checkAll rules trees = true →
    ∀ tree ∈ trees, Derivation rules tree
  | [], _ => nofun
  | tree :: trees, h => by
    rw [checkAll, Bool.and_eq_true] at h
    intro other mem
    cases mem with
    | head => exact of_check tree h.1
    | tail _ mem => exact of_checkAll trees h.2 other mem

end

mutual

theorem check_eq_true : {tree : ParseTree} → Derivation rules tree → check rules tree = true
  | .leaf _, _ => rfl
  | .node head children, derivation => by
    obtain ⟨rule, hmem, hrule⟩ := derivation.exists_rule
    rw [check, Bool.and_eq_true, List.any_eq_true]
    exact ⟨⟨rule, hmem, decide_eq_true hrule⟩, checkAll_eq_true fun _ mem => derivation.of_mem mem⟩

theorem checkAll_eq_true : {trees : List ParseTree} →
    (∀ tree ∈ trees, Derivation rules tree) → checkAll rules trees = true
  | [], _ => rfl
  | tree :: trees, derive => by
    rw [checkAll, Bool.and_eq_true]
    exact ⟨check_eq_true (derive tree List.mem_cons_self),
      checkAll_eq_true fun other mem => derive other (List.mem_cons_of_mem _ mem)⟩

end

instance (tree : ParseTree) : Decidable (Derivation rules tree) :=
  decidable_of_iff (check rules tree = true) ⟨of_check tree, check_eq_true⟩

end Derivation

/-- The kinds of a tree's leaves. -/
def ParseTree.kinds (tree : ParseTree) : List Terminal := tree.leaves.map Token.kind

/-- What some derivation from `head` spells. -/
def Sentence (rules : List Rule) (head : Nonterminal) (kinds : List Terminal) : Prop :=
  ∃ tree, Derivation rules tree ∧ tree.symbol = .nonterminal head ∧ tree.kinds = kinds

namespace Language

/-- A derivation of a whole program. -/
def IsProgramTree (tree : ParseTree) : Prop :=
  Derivation rules tree ∧ tree.symbol = .nonterminal .program
  deriving Decidable

/-- The kinds of a whole program. -/
def IsProgram (kinds : List Terminal) : Prop := Sentence rules .program kinds

/-- The kinds that some program begins with. -/
def IsProgramStart (kinds : List Terminal) : Prop := ∃ more, IsProgram (kinds ++ more)

/-- The kind is a legal continuation: some program begins with the kinds and then goes on with it,
or, where it is the end of the input, they are a whole program. -/
def CanFollow (kinds : List Terminal) (kind : Terminal) : Prop :=
  if kind = .endOfInput then IsProgram kinds else IsProgramStart (kinds ++ [kind])

end Language

end ShiftReduce
