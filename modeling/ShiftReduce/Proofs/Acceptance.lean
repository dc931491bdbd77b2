import ShiftReduce.Proofs.Kernels
import ShiftReduce.Proofs.Pulled
import ShiftReduce.Parse

/-!
What the language's parser accepts. Its table is complete, so a session over the leaves of any
derivation of a program builds that very derivation and accepts it, whatever the source goes on
with behind the end of the input. Steps are enough, since a derivation has at most seven leaves and
nodes for each of its leaves. So no program is rejected, and the grammar is unambiguous.
-/

namespace ShiftReduce

/-- The credits of neighbouring symbols together. -/
def creditAll (credit : Symbol → Nat) : List Symbol → Nat
  | [] => 0
  | symbol :: symbols => credit symbol + creditAll credit symbols

namespace Derivation

variable {rules : List Rule}

theorem sizeAll_add_creditAll_le (credit : Symbol → Nat) (trees : List ParseTree)
    (bounded : ∀ tree ∈ trees, tree.size + credit tree.symbol ≤ 7 * tree.leaves.length + 1) :
    ParseTree.sizeAll trees + creditAll credit (trees.map ParseTree.symbol) ≤
      7 * (ParseTree.leavesAll trees).length + trees.length := by
  induction trees with
  | nil => exact Nat.le_refl 0
  | cons tree trees ih =>
    have htree := bounded tree List.mem_cons_self
    have htrees := ih fun other mem => bounded other (List.mem_cons_of_mem _ mem)
    simp only [ParseTree.sizeAll, ParseTree.leavesAll, List.map_cons, creditAll,
      List.length_append, List.length_cons]
    omega

/-- Every token pays for seven leaves and nodes. A tree has left over what its symbol is credited
with, if the credits on a right-hand side pay for its places and for the credit of its rule. -/
theorem size_add_credit_le (credit : Symbol → Nat) (terminals : ∀ kind, credit (.terminal kind) ≤ 7)
    (pays : ∀ rule ∈ rules,
      credit (.nonterminal rule.head) + rule.body.length ≤ creditAll credit rule.body)
    {tree : ParseTree} (derivation : Derivation rules tree) :
    tree.size + credit tree.symbol ≤ 7 * tree.leaves.length + 1 := by
  induction derivation with
  | leaf token =>
    have hkind := terminals token.kind
    simp only [ParseTree.size, ParseTree.symbol, ParseTree.leaves, List.length_singleton]
    omega
  | @node rule children mem spells _ ih =>
    have hpays := pays rule mem
    have hchildren := sizeAll_add_creditAll_le credit children ih
    rw [spells, List.length_map] at hpays
    simp only [ParseTree.size, ParseTree.symbol, ParseTree.leaves]
    omega

end Derivation

/-- A script hands out the tokens listed in front, and then the next one or an end token. -/
theorem Script.take_front (endLine : Nat) (rest : List Token) : ∀ front : List Token,
    (TokenSource.take (⟨front ++ rest, endLine⟩ : Script) (front.length + 1)).1 =
      front ++ [rest.headD (.atEnd endLine)]
  | [] => by cases rest <;> rfl
  | token :: front => congrArg (token :: ·) (take_front endLine rest front)

namespace Language

variable {σ : Type} [TokenSource σ]

/-- What is left of seven leaves and nodes for each token: deeper levels of expression have more
nodes above them still to pay, and an alternative may have no token at all. -/
def credit : Symbol → Nat
  | .terminal _ => 7
  | .nonterminal .alternative => 0
  | .nonterminal .statement => 2
  | .nonterminal .declaration | .nonterminal .assignment | .nonterminal .conditional
  | .nonterminal .loop => 3
  | .nonterminal .program | .nonterminal .block | .nonterminal .disjunction => 1
  | .nonterminal .conjunction => 2
  | .nonterminal .comparison => 3
  | .nonterminal .sum => 4
  | .nonterminal .product => 5
  | .nonterminal .factor => 6

theorem credit_pays : ∀ rule ∈ rules,
    credit (.nonterminal rule.head) + rule.body.length ≤ creditAll credit rule.body := by decide

theorem size_le {tree : ParseTree} (program : IsProgramTree tree) :
    tree.size ≤ 7 * tree.leaves.length := by
  have hsize := program.1.size_add_credit_le credit (fun _ => Nat.le_refl 7) credit_pays
  rw [program.2] at hsize
  exact Nat.le_of_succ_le_succ hsize

/-- A source that hands out the leaves of a program and then the end is accepted, given one step
for each leaf and node of the derivation and one more. -/
theorem accepts_derivation {source : σ} {tree : ParseTree} (program : IsProgramTree tree)
    {last : Token} (ends : last.kind = .endOfInput)
    (taken : (TokenSource.take source (tree.leaves.length + 1)).1 = tree.leaves ++ [last])
    {limit : Nat} (enough : tree.size < limit) :
    (parseWithin limit source).1 = .accepted tree := by
  have hstart : Session.Awaits table .empty (tree.leaves ++ [last]) (.start table source) := by
    refine ⟨rfl, rfl, ?_, rfl⟩
    rw [Session.upcoming_start, List.length_append]
    exact taken
  have hnext : table.next? Stack.empty.topState tree.symbol = some 2 := by
    rw [program.2]
    rfl
  have hfollow : ∀ head, tree.symbol = .nonterminal head → last.kind ∈ lookahead.follow head := by
    intro head hhead
    rw [program.2] at hhead
    obtain rfl := Symbol.nonterminal.inj hhead
    rw [ends]
    exact List.mem_singleton.mpr rfl
  have hread := complete.runs_over program.1 hnext hfollow hstart
  have haccept : table.action 2 last.kind = .accept := by rw [ends]; rfl
  have hstep := hread.step_accept rfl haccept
  obtain ⟨extra, rfl⟩ := Nat.exists_eq_add_of_lt enough
  rw [parseWithin, Nat.add_assoc, Session.run_add _ _ _ hread.unfinished, Session.run_succ, hstep,
    if_neg nofun]
  rfl

theorem parseTokens_append {tree : ParseTree} (program : IsProgramTree tree) (rest : List Token)
    (ends : ∀ line, (rest.headD (.atEnd line)).kind = .endOfInput) :
    parseTokens (tree.leaves ++ rest) = .accepted tree := by
  have hsize := size_le program
  refine accepts_derivation program (ends _) (Script.take_front _ rest tree.leaves) ?_
  change tree.size < 7 * (tree.leaves ++ rest).length + 1
  rw [List.length_append]
  omega

/-- Tokens of the same kinds as the leaves of a program are accepted with the same shape. -/
theorem parseTokens_of_kinds {tree : ParseTree} (program : IsProgramTree tree)
    {tokens : List Token} (kinds : tokens.map Token.kind = tree.kinds) :
    ∃ other, parseTokens tokens = .accepted other ∧ other.SameKinds tree := by
  have haccepted := parseTokens_append program [] fun _ => rfl
  rw [List.append_nil] at haccepted
  obtain ⟨-, -, hshifted, -⟩ := Session.accepted_run annotated haccepted
  have hlength : tokens.length = tree.leaves.length := by
    rw [← List.length_map Token.kind, kinds, ParseTree.kinds, List.length_map]
  have hreads : (TokenSource.take (Script.ofList tree.leaves) (tree.leaves.length + 1)).1.map
      Token.kind = (TokenSource.take (Script.ofList tokens) (tree.leaves.length + 1)).1.map
      Token.kind := by
    have hleft := Script.take_front ((tree.leaves.getLast?.map Token.line).getD 1) [] tree.leaves
    have hright := Script.take_front ((tokens.getLast?.map Token.line).getD 1) [] tokens
    rw [List.append_nil] at hleft hright
    rw [hlength] at hright
    rw [Script.ofList, Script.ofList, hleft, hright, List.map_append, List.map_append, kinds]
    rfl
  have houtcome := Session.run_of_kinds table
    (congrArg (· + 1) (congrArg List.length hshifted)) hreads
  have hsteps : stepsFor (Script.ofList tokens) = stepsFor (Script.ofList tree.leaves) :=
    congrArg stepBound hlength
  have hrun : parseTokens tokens = ((Session.start table (Script.ofList tokens)).run
      (stepsFor (Script.ofList tree.leaves))).1 := by
    rw [← hsteps]
    rfl
  rw [parseTokens, parse, parseWithin] at haccepted
  rw [haccepted, ← hrun] at houtcome
  cases hparse : parseTokens tokens with
  | accepted other =>
    rw [hparse] at houtcome
    exact ⟨other, rfl, (Outcome.accepted.inj houtcome).symm⟩
  | failed error =>
    rw [hparse] at houtcome
    cases error <;> cases houtcome
  | unfinished =>
    rw [hparse] at houtcome
    cases houtcome

/-- The parser gives every derivation of a program back from its leaves, whatever stands behind an
end token, and no other derivation has the same leaves. -/
theorem parseTokens_leaves {tree : ParseTree} (program : IsProgramTree tree) :
    parseTokens tree.leaves = .accepted tree ∧
    (∀ last more, last.kind = .endOfInput →
      parseTokens (tree.leaves ++ last :: more) = .accepted tree) ∧
    (∀ tokens : List Token, tokens.map Token.kind = tree.kinds →
      ∃ other, parseTokens tokens = .accepted other ∧ other.SameKinds tree) ∧
    (∀ other, IsProgramTree other → other.leaves = tree.leaves → other = tree) := by
  have hleaves : ∀ {other}, IsProgramTree other → parseTokens other.leaves = .accepted other := by
    intro other hother
    have haccepted := parseTokens_append hother [] fun _ => rfl
    rw [List.append_nil] at haccepted
    exact haccepted
  refine ⟨hleaves program, ?_, fun _ => parseTokens_of_kinds program, ?_⟩
  · intro last more hlast
    exact parseTokens_append program (last :: more) fun _ => hlast
  · intro other hother hsame
    have haccepted := hleaves hother
    rw [hsame, hleaves program] at haccepted
    exact (Outcome.accepted.inj haccepted).symm

/-- A program with one declaration. -/
def shortProgram : ParseTree :=
  .node .program [.leaf (.bare .prog 1), .leaf ⟨.ident, some "tiny", 1⟩, .leaf (.bare .colon 1),
    .node .block [
      .node .statement [.node .declaration
        [.leaf ⟨.dataType, some "int", 2⟩, .leaf ⟨.ident, some "x", 2⟩, .leaf (.bare .semicolon 2)]],
      .node .block [.leaf (.bare .done 3)]],
    .leaf (.bare .smile 3)]

theorem parseTokens_leaves_short : IsProgramTree shortProgram ∧
    parseTokens shortProgram.leaves = .accepted shortProgram := by
  have hprogram : IsProgramTree shortProgram := by decide
  exact ⟨hprogram, (parseTokens_leaves hprogram).1⟩

end Language

end ShiftReduce
