import ShiftReduce.Token

/-!
Parse trees. A leaf holds one token, a node a nonterminal over its children from left to right; a
node may have no children at all, which is how an empty right-hand side shows. The frontier of a
tree is its list of leaf tokens, and a tree starts on the line of the first of them.
-/

namespace ShiftReduce

/-- A tree over a program's tokens. -/
inductive ParseTree where
  | leaf (token : Token)
  | node (head : Nonterminal) (children : List ParseTree)
  deriving Repr

namespace ParseTree

/-- The symbol a tree stands for on a right-hand side. -/
def symbol : ParseTree → Symbol
  | .leaf token => .terminal token.kind
  | .node head _ => .nonterminal head

/-- The trees right below the root; a leaf has none. -/
def children : ParseTree → List ParseTree
  | .leaf _ => []
  | .node _ children => children

/-- The token of a leaf. -/
def token? : ParseTree → Option Token
  | .leaf token => some token
  | .node _ _ => none

/-- The subtree reached by following child positions from the root. -/
def descend? (tree : ParseTree) : List Nat → Option ParseTree
  | [] => some tree
  | position :: path => tree.children[position]?.bind fun child => child.descend? path

mutual

/-- The leaf tokens from left to right. -/
def leaves : ParseTree → List Token
  | .leaf token => [token]
  | .node _ children => leavesAll children

/-- The leaf tokens of neighbouring trees from left to right. -/
def leavesAll : List ParseTree → List Token
  | [] => []
  | tree :: trees => tree.leaves ++ leavesAll trees

end

mutual

/-- The number of leaves and nodes. -/
def size : ParseTree → Nat
  | .leaf _ => 1
  | .node _ children => sizeAll children + 1

/-- The number of leaves and nodes of neighbouring trees. -/
def sizeAll : List ParseTree → Nat
  | [] => 0
  | tree :: trees => tree.size + sizeAll trees

end

mutual

/-- The line a tree starts on: a leaf's own, a node's that of its first child that has one. -/
def line? : ParseTree → Option Nat
  | .leaf token => some token.line
  | .node _ children => firstLine? children

/-- The line of the first of neighbouring trees that has one. -/
def firstLine? : List ParseTree → Option Nat
  | [] => none
  | tree :: trees => tree.line?.or (firstLine? trees)

end

/-! ### Neighbouring trees -/

theorem leavesAll_eq_flatMap (trees : List ParseTree) : leavesAll trees = trees.flatMap leaves := by
  induction trees with
  | nil => rfl
  | cons tree trees ih => simp [leavesAll, ih]

@[simp] theorem leavesAll_append (left right : List ParseTree) :
    leavesAll (left ++ right) = leavesAll left ++ leavesAll right := by
  simp [leavesAll_eq_flatMap]

mutual

theorem line?_eq_head? : (tree : ParseTree) → tree.line? = tree.leaves.head?.map Token.line
  | .leaf _ => rfl
  | .node _ children => firstLine?_eq_head? children

theorem firstLine?_eq_head? :
    (trees : List ParseTree) → firstLine? trees = (leavesAll trees).head?.map Token.line
  | [] => rfl
  | tree :: trees => by
    simp [firstLine?, leavesAll, line?_eq_head? tree, firstLine?_eq_head? trees, Option.map_or]

end

/-! ### Equality is decidable -/

mutual

def decEq : (left right : ParseTree) → Decidable (left = right)
  | .leaf a, .leaf b =>
    if h : a = b then isTrue (by rw [h]) else isFalse (fun e => h (by injection e))
  | .leaf _, .node _ _ => isFalse (fun e => by injection e)
  | .node _ _, .leaf _ => isFalse (fun e => by injection e)
  | .node a as, .node b bs =>
    if h : a = b then
      match decEqAll as bs with
      | isTrue hs => isTrue (by rw [h, hs])
      | isFalse hs => isFalse (fun e => hs (by injection e))
    else isFalse (fun e => h (by injection e))

def decEqAll : (left right : List ParseTree) → Decidable (left = right)
  | [], [] => isTrue rfl
  | [], _ :: _ => isFalse (fun e => by injection e)
  | _ :: _, [] => isFalse (fun e => by injection e)
  | a :: as, b :: bs =>
    match decEq a b with
    | isTrue h =>
      match decEqAll as bs with
      | isTrue hs => isTrue (by rw [h, hs])
      | isFalse hs => isFalse (fun e => hs (by injection e))
    | isFalse h => isFalse (fun e => h (by injection e))

end

instance : DecidableEq ParseTree := decEq

end ParseTree

end ShiftReduce
