import Mathlib.Data.List.Infix
import ShiftReduce.Language.Precedence
import ShiftReduce.Proofs.Acceptance

/-!
Expressions group as their operators bind. The grammar has one nonterminal for each level of
operators, a rule that joins two sides with an operator of the level and one that climbs from the
next tighter level. So a chain has a derivation that joins where the chain is grouped and climbs
where levels are passed over; the parser gives that derivation back, and when the climbs are
collapsed the groups are what is left.
-/

namespace ShiftReduce.Language

/-! ### Levels and rules -/

/-- The nonterminal of the loosest of some levels, or that of operands if there are none. -/
def headOf : List (Terminal × Nonterminal) → Nonterminal
  | [] => .factor
  | level :: _ => level.2

theorem level_rules : ∀ suffix ∈ levels.tails, ∀ level ∈ suffix.head?,
    Rule.of level.2 [.nonterminal (headOf suffix.tail)] ∈ rules ∧
    Rule.of level.2 [.nonterminal level.2, .terminal level.1, .nonterminal (headOf suffix.tail)] ∈
      rules := by decide

/-- Levels with a kind of operators among them are as loose as its own level. -/
theorem suffix_of_mem {kind : Terminal} {head : Nonterminal}
    {coarse finer : List (Terminal × Nonterminal)} (own : (kind, head) :: finer <:+ levels)
    (within : coarse <:+ levels) (mem : kind ∈ coarse.map Prod.fst) :
    (kind, head) :: finer <:+ coarse := by
  rcases List.suffix_or_suffix_of_suffix own within with hown | hcoarse
  · exact hown
  · rcases List.suffix_cons_iff.mp hcoarse with rfl | hfiner
    · exact List.suffix_rfl
    · -- no two levels have a kind of operators in common
      have hnodup : (levels.map Prod.fst).Nodup := by decide
      have hown := hnodup.sublist (own.sublist.map Prod.fst)
      exact absurd (List.map_subset _ hfiner.subset mem) (List.nodup_cons.mp hown).1

/-- A derivation that applies a rule at its root. -/
theorem derivation_of_rule {head : Nonterminal} {body : List Symbol} {children : List ParseTree}
    (mem : Rule.of head body ∈ rules) (spells : children.map ParseTree.symbol = body)
    (below : ∀ child ∈ children, Derivation rules child) : Derivation rules (.node head children) :=
  .node mem spells.symm below

/-- A derivation from `head` that spells the tokens and has nothing but climbs beside the core. -/
structure Expresses (head : Nonterminal) (tokens : List Token) (core tree : ParseTree) : Prop where
  derivation : Derivation rules tree
  symbol_eq : tree.symbol = .nonterminal head
  leaves_eq : tree.leaves = tokens
  collapse_eq : tree.collapse = core

namespace Expresses

variable {level : Terminal × Nonterminal} {coarse fine finer : List (Terminal × Nonterminal)}
  {tokens left right : List Token} {core leftCore rightCore tree leftTree rightTree : ParseTree}

/-- What a level expresses the next looser one does. -/
theorem climb (within : level :: finer <:+ levels)
    (expresses : Expresses (headOf finer) tokens core tree) :
    Expresses level.2 tokens core (.node level.2 [tree]) where
  derivation := by
    obtain ⟨hclimb, -⟩ := level_rules _ ((List.mem_tails _ _).mpr within) level rfl
    refine derivation_of_rule hclimb ?_ (List.forall_mem_singleton.mpr expresses.derivation)
    rw [List.map_singleton, expresses.symbol_eq]
    rfl
  symbol_eq := rfl
  leaves_eq := by
    rw [ParseTree.leaves, ParseTree.leavesAll, ParseTree.leavesAll, List.append_nil,
      expresses.leaves_eq]
  collapse_eq := by
    have hmem : level.2 ∈ levels.map Prod.snd := List.mem_map_of_mem (within.mem List.mem_cons_self)
    rw [ParseTree.collapse_of_climbs hmem, expresses.collapse_eq]

/-- Two sides with an operator of the level between them. -/
theorem join (within : level :: finer <:+ levels) {operator : Token}
    (isKind : operator.kind = level.1) (onLeft : Expresses level.2 left leftCore leftTree)
    (onRight : Expresses (headOf finer) right rightCore rightTree) :
    Expresses level.2 (left ++ operator :: right)
      (.node level.2 [leftCore, .leaf operator, rightCore])
      (.node level.2 [leftTree, .leaf operator, rightTree]) where
  derivation := by
    obtain ⟨-, hjoin⟩ := level_rules _ ((List.mem_tails _ _).mpr within) level rfl
    refine derivation_of_rule hjoin ?_ ?_
    · rw [List.map_cons, List.map_cons, List.map_singleton, onLeft.symbol_eq, onRight.symbol_eq,
        ← isKind]
      rfl
    · simp only [List.forall_mem_cons]
      exact ⟨onLeft.derivation, .leaf operator, onRight.derivation, List.forall_mem_nil _⟩
  symbol_eq := rfl
  leaves_eq := by
    simp only [ParseTree.leaves, ParseTree.leavesAll, onLeft.leaves_eq, onRight.leaves_eq,
      List.append_nil, List.singleton_append]
  collapse_eq := by
    rw [ParseTree.collapse_binary, onLeft.collapse_eq, onRight.collapse_eq]
    rfl

/-- Climbing over any number of levels. -/
theorem lift (tighter : fine <:+ coarse) (within : coarse <:+ levels)
    (expresses : Expresses (headOf fine) tokens core tree) :
    ∃ lifted, Expresses (headOf coarse) tokens core lifted := by
  induction coarse with
  | nil =>
    obtain rfl := List.suffix_nil.mp tighter
    exact ⟨tree, expresses⟩
  | cons level finer ih =>
    rcases List.suffix_cons_iff.mp tighter with rfl | htighter
    · exact ⟨tree, expresses⟩
    · obtain ⟨lifted, hlifted⟩ := ih htighter ((List.suffix_cons level finer).trans within)
      exact ⟨_, hlifted.climb within⟩

end Expresses

/-! ### Chains -/

theorem spelled_split (first : ParseTree) (front : List Link) (link : Link) (back : List Link) :
    spelled first (front ++ link :: back) =
      spelled first front ++ link.operator :: spelled link.operand back := by
  simp only [spelled, List.flatMap_append, List.flatMap_cons, List.append_assoc, List.cons_append]

/-- A chain is expressed by every level that is as loose as its operators. -/
theorem exists_expresses {first : ParseTree} {links : List Link} (operand : IsOperand first)
    (operands : ∀ link ∈ links, IsOperand link.operand)
    {coarse : List (Terminal × Nonterminal)} (within : coarse <:+ levels)
    (operators : ∀ link ∈ links, link.operator.kind ∈ coarse.map Prod.fst) :
    ∃ tree,
      Expresses (headOf coarse) (spelled first links) (grouped first links).collapse tree := by
  fun_induction grouped first links generalizing coarse with
  | case1 first links hnone =>
    have hlinks : links = [] := List.eq_nil_iff_forall_not_mem.mpr fun link mem =>
      loosest?_eq_none hnone link mem (List.map_subset _ within.subset (operators link mem))
    subst hlinks
    have hfirst : Expresses (headOf []) (spelled first []) first.collapse first :=
      ⟨operand.1, operand.2, (List.append_nil _).symm, rfl⟩
    exact hfirst.lift List.nil_suffix within
  | case2 first links head front link back hsome ihFront ihBack =>
    obtain ⟨rfl, hback, coarser, finer, hlevels, hcoarser⟩ := loosest?_eq_some hsome
    have hown : (link.operator.kind, head) :: finer <:+ levels := ⟨coarser, hlevels.symm⟩
    have hkinds : ∀ other ∈ front ++ link :: back,
        other.operator.kind ∈ ((link.operator.kind, head) :: finer).map Prod.fst := by
      intro other mem
      have hkind := List.map_subset _ within.subset (operators other mem)
      rw [hlevels, List.map_append, List.mem_append] at hkind
      exact hkind.resolve_left (hcoarser other mem)
    obtain ⟨hfrontKinds, hrestKinds⟩ := List.forall_mem_append.mp hkinds
    obtain ⟨hfront, hrest⟩ := List.forall_mem_append.mp operands
    obtain ⟨hlink, hbackOperands⟩ := List.forall_mem_cons.mp hrest
    obtain ⟨left, hleft⟩ := ihFront operand hfront hown hfrontKinds
    -- behind the last operator of its level there are only tighter ones
    obtain ⟨right, hright⟩ := ihBack hlink hbackOperands
      ((List.suffix_cons _ finer).trans hown) fun other mem =>
        (List.mem_cons.mp (hrestKinds other (List.mem_cons_of_mem _ mem))).resolve_left
          (hback other mem)
    have hjoin := Expresses.join hown rfl hleft hright
    rw [← spelled_split, ← ParseTree.collapse_leaf, ← ParseTree.collapse_binary] at hjoin
    have hmem := operators link (List.mem_append_right _ List.mem_cons_self)
    exact hjoin.lift (suffix_of_mem hown within hmem) within

/-! ### Programs -/

section Assigning

variable {prog name colon set target assign semicolon done smile : Token}
  {expression statement : ParseTree}

/-- An assignment of an expression to a name. -/
def assignment (set target assign : Token) (expression : ParseTree) (semicolon : Token) :
    ParseTree :=
  .node .assignment [.leaf set, .leaf target, .leaf assign, expression, .leaf semicolon]

/-- A program of one statement. -/
def programOf (prog name colon : Token) (statement : ParseTree) (done smile : Token) : ParseTree :=
  .node .program [.leaf prog, .leaf name, .leaf colon,
    .node .block [.node .statement [statement], .node .block [.leaf done]], .leaf smile]

theorem leaves_programOf_assignment :
    (programOf prog name colon (assignment set target assign expression semicolon)
      done smile).leaves =
      [prog, name, colon, set, target, assign] ++ expression.leaves ++
        [semicolon, done, smile] := by
  simp [programOf, assignment, ParseTree.leaves, ParseTree.leavesAll]

theorem derivation_assignment
    (kinds : [set, target, assign, semicolon].map Token.kind = [.set, .ident, .assign, .semicolon])
    (derivation : Derivation rules expression)
    (symbol_eq : expression.symbol = .nonterminal .disjunction) :
    Derivation rules (assignment set target assign expression semicolon) := by
  have hrule : Rule.of .assignment [.terminal .set, .terminal .ident, .terminal .assign,
    .nonterminal .disjunction, .terminal .semicolon] ∈ rules := by decide
  simp only [List.map_cons, List.map_nil, List.cons.injEq, and_true] at kinds
  obtain ⟨hset, htarget, hassign, hsemicolon⟩ := kinds
  refine derivation_of_rule hrule ?_ (by simp [derivation, Derivation.leaf])
  rw [← hset, ← htarget, ← hassign, ← symbol_eq, ← hsemicolon]
  rfl

theorem isProgramTree_programOf
    (kinds : [prog, name, colon, done, smile].map Token.kind =
      [.prog, .ident, .colon, .done, .smile])
    (derivation : Derivation rules statement)
    (symbol_eq : statement.symbol = .nonterminal .assignment) :
    IsProgramTree (programOf prog name colon statement done smile) := by
  have hprogram : Rule.of .program [.terminal .prog, .terminal .ident, .terminal .colon,
    .nonterminal .block, .terminal .smile] ∈ rules := by decide
  have hblock : Rule.of .block [.nonterminal .statement, .nonterminal .block] ∈ rules := by decide
  have hstatement : Rule.of .statement [.nonterminal .assignment] ∈ rules := by decide
  have hdoneBlock : Rule.of .block [.terminal .done] ∈ rules := by decide
  simp only [List.map_cons, List.map_nil, List.cons.injEq, and_true] at kinds
  obtain ⟨hprog, hname, hcolon, hdone, hsmile⟩ := kinds
  have hinner : Derivation rules (.node .statement [statement]) :=
    derivation_of_rule hstatement (by rw [List.map_singleton, symbol_eq]) (by simp [derivation])
  have hlast : Derivation rules (.node .block [.leaf done]) :=
    derivation_of_rule hdoneBlock (by rw [← hdone]; rfl) (by simp [Derivation.leaf])
  have hbody : Derivation rules
      (.node .block [.node .statement [statement], .node .block [.leaf done]]) :=
    derivation_of_rule hblock rfl (by simp [hinner, hlast])
  refine ⟨derivation_of_rule hprogram ?_ (by simp [hbody, Derivation.leaf]), rfl⟩
  rw [← hprog, ← hname, ← hcolon, ← hsmile]
  rfl

end Assigning

/-- A chain of operands and binary operators in any mix, assigned to a name, is accepted and grouped
at the last of its loosest operators, and so on both sides. -/
theorem parseTokens_chain {prog name colon set target assign semicolon done smile : Token}
    (kinds : [prog, name, colon, set, target, assign, semicolon, done, smile].map Token.kind =
      [.prog, .ident, .colon, .set, .ident, .assign, .semicolon, .done, .smile])
    {first : ParseTree} {links : List Link} (operand : IsOperand first)
    (operands : ∀ link ∈ links, IsOperand link.operand)
    (operators : ∀ link ∈ links, link.operator.kind ∈ levels.map Prod.fst) :
    ∃ tree expression,
      parseTokens ([prog, name, colon, set, target, assign] ++ spelled first links ++
        [semicolon, done, smile]) = .accepted tree ∧
      tree.descend? [3, 0, 0, 3] = some expression ∧
      expression.leaves = spelled first links ∧
      expression.collapse = grouped first.collapse (links.map Link.collapse) ∧
      ∀ level ∈ levels, (∀ link ∈ links, link.operator.kind = level.1) →
        expression.collapse = links.foldl
          (fun tree link => .node level.2 [tree, .leaf link.operator, link.operand.collapse])
          first.collapse := by
  obtain ⟨expression, hexpression⟩ :=
    exists_expresses operand operands List.suffix_rfl operators
  simp only [List.map_cons, List.map_nil, List.cons.injEq, and_true] at kinds
  obtain ⟨hprog, hname, hcolon, hset, htarget, hassign, hsemicolon, hdone, hsmile⟩ := kinds
  have hinside : [set, target, assign, semicolon].map Token.kind =
      [.set, .ident, .assign, .semicolon] := by simp [hset, htarget, hassign, hsemicolon]
  have hframe : [prog, name, colon, done, smile].map Token.kind =
      [.prog, .ident, .colon, .done, .smile] := by simp [hprog, hname, hcolon, hdone, hsmile]
  have hassignment := derivation_assignment hinside hexpression.derivation hexpression.symbol_eq
  have hprogram := isProgramTree_programOf hframe hassignment rfl
  obtain ⟨hparse, -⟩ := parseTokens_leaves hprogram
  rw [leaves_programOf_assignment, hexpression.leaves_eq] at hparse
  have hcollapse : expression.collapse = grouped first.collapse (links.map Link.collapse) := by
    rw [hexpression.collapse_eq, collapse_grouped]
  refine ⟨_, expression, hparse, rfl, hexpression.leaves_eq, hcollapse, fun level mem same => ?_⟩
  have hsame : ∀ link ∈ links.map Link.collapse, link.operator.kind = level.1 :=
    List.forall_mem_map.mpr same
  rw [hcollapse, grouped_of_one_level mem _ _ hsame, List.foldl_map]
  rfl

/-- An operand that is a name on the first line. -/
def named (text : String) : ParseTree := .node .factor [.leaf ⟨.ident, some text, 1⟩]

/-- The links behind the first operand of a chain with operators of three levels, signs and
parentheses. -/
def mixedLinks : List Link := [
  ⟨⟨.addOp, some "-", 1⟩, .node .factor [.leaf (.bare .minus 1), named "b"]⟩,
  ⟨⟨.mulOp, some "*", 1⟩, .node .factor [.leaf (.bare .leftParen 1),
    .node .disjunction [
      .node .disjunction [.node .conjunction [.node .comparison [.node .sum [.node .product
        [named "c"]]]]],
      .leaf (.bare .orOp 1),
      .node .conjunction [.node .comparison [.node .sum [.node .product [named "d"]]]]],
    .leaf (.bare .rightParen 1)]⟩,
  ⟨⟨.addOp, some "-", 1⟩, named "e"⟩,
  ⟨.bare .andOp 1, .node .factor [.leaf (.bare .notOp 1), named "f"]⟩]

/-- Both sums are on the left of the conjunction, and the first is on the left of the second. -/
theorem parseTokens_chain_mixed :
    (∀ link ∈ mixedLinks, IsOperand link.operand ∧ link.operator.kind ∈ levels.map Prod.fst) ∧
    ∃ tree expression,
    parseTokens (tokenize "prog p: set x = a - -b * (c || d) - e && !f; done :)") =
      .accepted tree ∧
    tree.descend? [3, 0, 0, 3] = some expression ∧
    expression.collapse = .node .conjunction [
      .node .sum [
        .node .sum [named "a", .leaf ⟨.addOp, some "-", 1⟩,
          .node .product [.node .factor [.leaf (.bare .minus 1), named "b"],
            .leaf ⟨.mulOp, some "*", 1⟩,
            .node .factor [.leaf (.bare .leftParen 1),
              .node .disjunction [named "c", .leaf (.bare .orOp 1), named "d"],
              .leaf (.bare .rightParen 1)]]],
        .leaf ⟨.addOp, some "-", 1⟩, named "e"],
      .leaf (.bare .andOp 1), .node .factor [.leaf (.bare .notOp 1), named "f"]] := by
  have hoperands : ∀ link ∈ mixedLinks, IsOperand link.operand := by decide
  have hoperators : ∀ link ∈ mixedLinks, link.operator.kind ∈ levels.map Prod.fst := by decide
  have hkinds : [.bare .prog 1, ⟨.ident, some "p", 1⟩, .bare .colon 1, .bare .set 1,
      ⟨.ident, some "x", 1⟩, .bare .assign 1, .bare .semicolon 1, .bare .done 1,
      .bare .smile 1].map Token.kind =
    [.prog, .ident, .colon, .set, .ident, .assign, .semicolon, .done, .smile] := rfl
  have hfirst : IsOperand (named "a") := by decide
  obtain ⟨tree, expression, hparse, hdescend, -, hcollapse, -⟩ :=
    parseTokens_chain hkinds hfirst hoperands hoperators
  refine ⟨fun link mem => ⟨hoperands link mem, hoperators link mem⟩, tree, expression, ?_,
    hdescend, hcollapse.trans ?_⟩
  · rw [← hparse]
    congr 1
    decide +kernel
  · decide +kernel

end ShiftReduce.Language
