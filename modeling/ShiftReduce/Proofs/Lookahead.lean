import ShiftReduce.Tree.Derivation

/-!
What derivations begin with and what stands behind them. For every nonterminal a grammar is given
the kinds that its sentences can begin with, none standing for the empty sentence, and the kinds
that can follow it. When the rules agree with these sets, no derivation begins otherwise, and
behind a child that is a derivation stands a kind from the set of what follows it.
-/

namespace ShiftReduce

/-- Tokens with one more behind them have a first one. -/
theorem exists_first (front : List Token) (next : Token) (rest : List Token) :
    ∃ first others, front ++ next :: rest = first :: others :=
  List.exists_cons_of_ne_nil (List.append_ne_nil_of_right_ne_nil _ (List.cons_ne_nil _ _))

/-- For each nonterminal, what its sentences can begin with and what can follow them. -/
structure Lookahead where
  first : Nonterminal → List (Option Terminal)
  follow : Nonterminal → List Terminal

namespace Lookahead

variable (sets : Lookahead)

/-- What can stand first in a tree of the symbol. -/
def firstOf : Symbol → List (Option Terminal)
  | .terminal kind => [some kind]
  | .nonterminal kind => sets.first kind

/-- What can stand first in neighbouring trees of the symbols with one of `after` behind them. -/
def begins (after : List (Option Terminal)) : List Symbol → List (Option Terminal)
  | [] => after
  | symbol :: rest => (sets.firstOf symbol).filter Option.isSome ++
      if none ∈ sets.firstOf symbol then begins after rest else []

/-- The sets agree with a grammar. -/
structure Covers (rules : List Rule) : Prop where
  first_mem : ∀ rule ∈ rules, ∀ kind ∈ sets.begins [none] rule.body, kind ∈ sets.first rule.head
  follow_mem : ∀ rule ∈ rules, ∀ dot < rule.body.length, ∀ head,
    rule.body[dot]? = some (.nonterminal head) →
      ∀ kind ∈ sets.begins ((sets.follow rule.head).map some) (rule.body.drop (dot + 1)),
        kind ∈ (sets.follow head).map some

variable {sets} {rules : List Rule}

theorem head?_mem_begins {after : List (Option Terminal)} {next : Option Terminal}
    (mem : next ∈ after) : ∀ {trees : List ParseTree},
      (∀ tree ∈ trees, tree.kinds.head? ∈ sets.firstOf tree.symbol) →
      ((ParseTree.leavesAll trees).map Token.kind).head?.or next ∈
        sets.begins after (trees.map ParseTree.symbol)
  | [], _ => mem
  | tree :: trees, firsts => by
    have htree := firsts tree List.mem_cons_self
    have hrest := head?_mem_begins mem fun other hother =>
      firsts other (List.mem_cons_of_mem _ hother)
    rw [ParseTree.leavesAll, List.map_append, List.head?_append, List.map_cons, begins]
    rw [ParseTree.kinds] at htree
    cases hhead : (tree.leaves.map Token.kind).head? with
    | none =>
      rw [hhead] at htree
      rw [if_pos htree]
      exact List.mem_append_right _ hrest
    | some kind =>
      rw [hhead] at htree
      exact List.mem_append_left _ (List.mem_filter.mpr ⟨htree, rfl⟩)

/-- A derivation begins as its symbol can begin. -/
theorem Covers.head?_mem (covers : sets.Covers rules) {tree : ParseTree}
    (derivation : Derivation rules tree) : tree.kinds.head? ∈ sets.firstOf tree.symbol := by
  induction derivation with
  | leaf token => exact List.mem_singleton.mpr rfl
  | @node rule children hrule hspells _ ih =>
    have hmem := head?_mem_begins (List.mem_singleton.mpr rfl : none ∈ [none]) ih
    rw [Option.or_none, ← hspells] at hmem
    exact covers.first_mem rule hrule _ hmem

/-- What stands behind a child is in the set of what follows it. -/
theorem Covers.kind_mem_follow (covers : sets.Covers rules) {rule : Rule} (mem : rule ∈ rules)
    {dot : Nat} {head : Nonterminal} (at_dot : rule.body[dot]? = some (.nonterminal head))
    {trees : List ParseTree} (derive : ∀ tree ∈ trees, Derivation rules tree)
    (spells : rule.body.drop (dot + 1) = trees.map ParseTree.symbol)
    {next token : Token} {rest more : List Token} (next_mem : next.kind ∈ sets.follow rule.head)
    (split : ParseTree.leavesAll trees ++ next :: rest = token :: more) :
    token.kind ∈ sets.follow head := by
  have hnext : some next.kind ∈ (sets.follow rule.head).map some := List.mem_map_of_mem next_mem
  have hbegins := head?_mem_begins hnext fun tree htree => covers.head?_mem (derive tree htree)
  rw [← spells] at hbegins
  obtain ⟨hlt, -⟩ := List.getElem?_eq_some_iff.mp at_dot
  have hfollow := covers.follow_mem rule mem dot hlt head at_dot _ hbegins
  have hhead : ((ParseTree.leavesAll trees).map Token.kind).head?.or (some next.kind) =
      some token.kind := by
    have hkinds := congrArg (fun tokens => (tokens.map Token.kind).head?) split
    simpa [List.head?_append] using hkinds
  rw [hhead] at hfollow
  obtain ⟨kind, hkind, hsome⟩ := List.mem_map.mp hfollow
  obtain rfl := Option.some.inj hsome
  exact hkind

end Lookahead

end ShiftReduce
