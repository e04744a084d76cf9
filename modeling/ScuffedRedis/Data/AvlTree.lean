import Mathlib

/-!
# The AVL tree

A node is reached only through the pointer of its parent, so updates in place are functions
from trees to trees. A call returns nothing where the source would follow a null pointer. The
second bound of a range, `end` in the source, is `stop`.
-/
namespace ScuffedRedis

/-- A `NodePtr` with what it points to. -/
inductive AVLNode (K V : Type) where
  | nullptr
  | node (key : K) (value : V) (height : Int) (left right : AVLNode K V)
  deriving DecidableEq, Repr

/-- The operations of the container, for runs. -/
inductive TreeOp (K V : Type) where
  | insert (key : K) (value : V)
  | remove (key : K)
  | clear

namespace AVLNode

variable {K V : Type}

def isNull : AVLNode K V → Bool
  | nullptr => true
  | node .. => false

def getHeight : AVLNode K V → Int
  | nullptr => 0
  | node _ _ height _ _ => height

def getBalance : AVLNode K V → Int
  | nullptr => 0
  | node _ _ _ left right => left.getHeight - right.getHeight

def updateHeight : AVLNode K V → AVLNode K V
  | nullptr => nullptr
  | node key value _ left right =>
    node key value (1 + max left.getHeight right.getHeight) left right

/-! ### Rotations -/

def rotateRight : AVLNode K V → Option (AVLNode K V)
  | node yKey yValue yHeight (node xKey xValue xHeight xLeft t2) yRight =>
    let y := updateHeight (node yKey yValue yHeight t2 yRight)
    some (updateHeight (node xKey xValue xHeight xLeft y))
  | _ => none

def rotateLeft : AVLNode K V → Option (AVLNode K V)
  | node xKey xValue xHeight xLeft (node yKey yValue yHeight t2 yRight) =>
    let x := updateHeight (node xKey xValue xHeight xLeft t2)
    some (updateHeight (node yKey yValue yHeight x yRight))
  | _ => none

/-- `node->left = rotateLeft(node->left); return rotateRight(node);` -/
def rotateLeftRight : AVLNode K V → Option (AVLNode K V)
  | nullptr => none
  | node key value height left right => do
    let left ← rotateLeft left
    rotateRight (node key value height left right)

/-- `node->right = rotateRight(node->right); return rotateLeft(node);` -/
def rotateRightLeft : AVLNode K V → Option (AVLNode K V)
  | nullptr => none
  | node key value height left right => do
    let right ← rotateRight right
    rotateLeft (node key value height left right)

section Compare

variable (comp : K → K → Bool)

/-! ### Insertion -/

/-- `comp_(key, child->key)`. -/
def keyBelow (key : K) : AVLNode K V → Option Bool
  | nullptr => none
  | node other _ _ _ _ => some (comp key other)

/-- `comp_(child->key, key)`. -/
def keyAbove (key : K) : AVLNode K V → Option Bool
  | nullptr => none
  | node other _ _ _ _ => some (comp other key)

/-- A condition `test && deref`, which follows the pointer only when the test holds. -/
def whenever (test : Prop) [Decidable test] (deref : Option Bool) : Option Bool :=
  if test then deref else some false

/-- The end of `insertNode`, from the update of the height on. -/
def rebalanceInserted (key : K) (changed : AVLNode K V) : Option (AVLNode K V) :=
  match updateHeight changed with
  | nullptr => some nullptr
  | node nodeKey value height left right => do
    let current := node nodeKey value height left right
    let balance := getBalance current
    if ← whenever (balance > 1) (keyBelow comp key left) then rotateRight current
    else if ← whenever (balance < -1) (keyAbove comp key right) then rotateLeft current
    else if ← whenever (balance > 1) (keyAbove comp key left) then rotateLeftRight current
    else if ← whenever (balance < -1) (keyBelow comp key right) then rotateRightLeft current
    else return current

/-- The tree and `inserted`. -/
def insertNode (key : K) (value : V) : AVLNode K V → Option (AVLNode K V × Bool)
  | nullptr => some (node key value 1 nullptr nullptr, true)
  | node nodeKey nodeValue height left right =>
    if comp key nodeKey then do
      let (left, inserted) ← insertNode key value left
      let balanced ← rebalanceInserted comp key (node nodeKey nodeValue height left right)
      return (balanced, inserted)
    else if comp nodeKey key then do
      let (right, inserted) ← insertNode key value right
      let balanced ← rebalanceInserted comp key (node nodeKey nodeValue height left right)
      return (balanced, inserted)
    else some (node nodeKey value height left right, false)

/-! ### Removal -/

def findMin : AVLNode K V → AVLNode K V
  | nullptr => nullptr
  | node key value height nullptr right => node key value height nullptr right
  | node _ _ _ left _ => findMin left

/-- The end of `removeNode`, from the update of the height on. -/
def rebalanceRemoved (changed : AVLNode K V) : Option (AVLNode K V) :=
  match updateHeight changed with
  | nullptr => some nullptr
  | node key value height left right =>
    let current := node key value height left right
    let balance := getBalance current
    if balance > 1 ∧ getBalance left ≥ 0 then rotateRight current
    else if balance > 1 ∧ getBalance left < 0 then rotateLeftRight current
    else if balance < -1 ∧ getBalance right ≤ 0 then rotateLeft current
    else if balance < -1 ∧ getBalance right > 0 then rotateRightLeft current
    else some current

/-- The tree and `removed`. With two children the successor's key and value move up and the
successor is removed below; that call sets `removed` last. -/
def removeNode (key : K) : AVLNode K V → Option (AVLNode K V × Bool)
  | nullptr => some (nullptr, false)
  | node nodeKey nodeValue height left right =>
    if comp key nodeKey then do
      let (left, removed) ← removeNode key left
      let balanced ← rebalanceRemoved (node nodeKey nodeValue height left right)
      return (balanced, removed)
    else if comp nodeKey key then do
      let (right, removed) ← removeNode key right
      let balanced ← rebalanceRemoved (node nodeKey nodeValue height left right)
      return (balanced, removed)
    else if left.isNull ∨ right.isNull then some (if left.isNull then right else left, true)
    else
      match findMin right with
      | nullptr => none
      | node successor successorValue _ _ _ => do
        let (right, removed) ← removeNode successor right
        let balanced ← rebalanceRemoved (node successor successorValue height left right)
        return (balanced, removed)

/-! ### Queries -/

def findNode (key : K) : AVLNode K V → AVLNode K V
  | nullptr => nullptr
  | node nodeKey value height left right =>
    if comp key nodeKey then findNode key left
    else if comp nodeKey key then findNode key right
    else node nodeKey value height left right

/-- `result` after the traversal has appended to it. -/
def inorderTraversal : AVLNode K V → List (K × V) → List (K × V)
  | nullptr, result => result
  | node key value _ left right, result =>
    right.inorderTraversal (left.inorderTraversal result ++ [(key, value)])

/-- `result` after the query has appended to it. -/
def rangeQuery (start stop : K) : AVLNode K V → List (K × V) → List (K × V)
  | nullptr, result => result
  | node key value _ left right, result =>
    if !comp key start && !comp stop key then
      right.rangeQuery start stop (left.rangeQuery start stop result ++ [(key, value)])
    else if comp key start then right.rangeQuery start stop result
    else left.rangeQuery start stop result

def getSubtreeSize : AVLNode K V → Int32
  | nullptr => 0
  | node _ _ _ left right => 1 + left.getSubtreeSize + right.getSubtreeSize

def getRank (key : K) : AVLNode K V → Int32
  | nullptr => -1
  | node nodeKey _ _ left right =>
    if comp key nodeKey then getRank key left
    else if comp nodeKey key then
      let leftSize := left.getSubtreeSize
      let rightRank := getRank key right
      if rightRank = -1 then -1 else leftSize + 1 + rightRank
    else left.getSubtreeSize

end Compare
end AVLNode

/-! ### The container -/

structure AVLTree (K V : Type) where
  root : AVLNode K V
  size : Nat

namespace AVLTree

variable {K V : Type}

def empty : AVLTree K V where
  root := .nullptr
  size := 0

def height (tree : AVLTree K V) : Int := tree.root.getHeight

section Compare

variable (comp : K → K → Bool)

def insert (tree : AVLTree K V) (key : K) (value : V) : Option (Bool × AVLTree K V) := do
  let (root, inserted) ← tree.root.insertNode comp key value
  return (inserted, ⟨root, if inserted then tree.size + 1 else tree.size⟩)

def remove (tree : AVLTree K V) (key : K) : Option (Bool × AVLTree K V) := do
  let (root, removed) ← tree.root.removeNode comp key
  return (removed, ⟨root, if removed then tree.size - 1 else tree.size⟩)

def find (tree : AVLTree K V) (key : K) : Option V :=
  match tree.root.findNode comp key with
  | .nullptr => none
  | .node _ value _ _ _ => some value

def contains (tree : AVLTree K V) (key : K) : Bool := !(tree.root.findNode comp key).isNull

def inorder (tree : AVLTree K V) : List (K × V) := tree.root.inorderTraversal []

def range (tree : AVLTree K V) (start stop : K) : List (K × V) :=
  tree.root.rangeQuery comp start stop []

def rank (tree : AVLTree K V) (key : K) : Int32 := tree.root.getRank comp key

def clear (_ : AVLTree K V) : AVLTree K V := empty

/-- One call, and the tree after it. -/
def next (tree : AVLTree K V) : TreeOp K V → Option (AVLTree K V)
  | .insert key value => (tree.insert comp key value).map Prod.snd
  | .remove key => (tree.remove comp key).map Prod.snd
  | .clear => some tree.clear

/-- The tree after a sequence of calls on a new one. -/
def run (ops : List (TreeOp K V)) : Option (AVLTree K V) := ops.foldlM (next comp) empty

end Compare
end AVLTree
end ScuffedRedis
