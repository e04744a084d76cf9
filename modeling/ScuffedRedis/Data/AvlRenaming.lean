import ScuffedRedis.Data.AvlTree

/-!
# Renaming the keys of an AVL tree

The tree sees its keys only through the comparison. A map of the keys that keeps every comparison
therefore commutes with every call, and a tree whose keys all come from a type with a good
comparison behaves as it does there.
-/
namespace ScuffedRedis

variable {K L V : Type}

namespace AVLNode

/-- The same tree over renamed keys. -/
def rename (f : K → L) : AVLNode K V → AVLNode L V
  | nullptr => nullptr
  | node key value height left right => node (f key) value height (left.rename f) (right.rename f)

variable {f : K → L}

@[simp] theorem isNull_rename (tree : AVLNode K V) : (tree.rename f).isNull = tree.isNull := by
  cases tree <;> rfl

@[simp] theorem getHeight_node (key : K) (value : V) (height : Int) (left right : AVLNode K V) :
    (node key value height left right).getHeight = height := rfl

@[simp] theorem getHeight_rename (tree : AVLNode K V) :
    (tree.rename f).getHeight = tree.getHeight := by
  cases tree <;> rfl

@[simp] theorem getBalance_rename (tree : AVLNode K V) :
    (tree.rename f).getBalance = tree.getBalance := by
  cases tree with
  | nullptr => rfl
  | node => simp [rename, getBalance]

@[simp] theorem updateHeight_rename (tree : AVLNode K V) :
    (tree.rename f).updateHeight = tree.updateHeight.rename f := by
  cases tree with
  | nullptr => rfl
  | node => simp [rename, updateHeight]

/-! ### Rotations -/

@[simp] theorem rotateRight_rename (tree : AVLNode K V) :
    (tree.rename f).rotateRight = tree.rotateRight.map (rename f) := by
  match tree with
  | nullptr => rfl
  | node _ _ _ nullptr _ => rfl
  | node _ _ _ (node ..) _ => simp [rename, rotateRight, updateHeight]

@[simp] theorem rotateLeft_rename (tree : AVLNode K V) :
    (tree.rename f).rotateLeft = tree.rotateLeft.map (rename f) := by
  match tree with
  | nullptr => rfl
  | node _ _ _ _ nullptr => rfl
  | node _ _ _ _ (node ..) => simp [rename, rotateLeft, updateHeight]

@[simp] theorem rotateLeftRight_rename (tree : AVLNode K V) :
    (tree.rename f).rotateLeftRight = tree.rotateLeftRight.map (rename f) := by
  cases tree with
  | nullptr => rfl
  | node key value height left right =>
    rw [rename, rotateLeftRight, rotateLeftRight, rotateLeft_rename]
    cases left.rotateLeft with
    | none => rfl
    | some turned => exact rotateRight_rename (node key value height turned right)

@[simp] theorem rotateRightLeft_rename (tree : AVLNode K V) :
    (tree.rename f).rotateRightLeft = tree.rotateRightLeft.map (rename f) := by
  cases tree with
  | nullptr => rfl
  | node key value height left right =>
    rw [rename, rotateRightLeft, rotateRightLeft, rotateRight_rename]
    cases right.rotateRight with
    | none => rfl
    | some turned => exact rotateLeft_rename (node key value height left turned)

/-! ### Updates -/

/-- A choice between two renamed trees is the renamed choice. -/
theorem choice_rename (test : Option Bool) (first second : Option (AVLNode K V)) :
    (test.bind fun holds => if holds = true then first.map (rename f) else second.map (rename f)) =
      (test.bind fun holds => if holds = true then first else second).map (rename f) := by
  match test with
  | none => rfl
  | some true => rfl
  | some false => rfl

/-- What a call that also answers a flag gives, with the keys renamed. -/
def renameResult (f : K → L) (result : AVLNode K V × Bool) : AVLNode L V × Bool :=
  (result.1.rename f, result.2)

section Path

variable {rebalanceK : AVLNode K V → Option (AVLNode K V)}
  {rebalanceL : AVLNode L V → Option (AVLNode L V)}
  (rebalances : ∀ tree, rebalanceL (tree.rename f) = (rebalanceK tree).map (rename f))
  (placeK : AVLNode K V → AVLNode K V) (placeL : AVLNode L V → AVLNode L V)
  (places : ∀ tree, placeL (tree.rename f) = (placeK tree).rename f)

include rebalances places

/-- A call on a subtree, followed by rebalancing above it. -/
theorem path_rename (below : Option (AVLNode K V × Bool)) :
    ((below.map (renameResult f)).bind fun result =>
        (rebalanceL (placeL result.1)).bind fun balanced => some (balanced, result.2)) =
      (below.bind fun result =>
        (rebalanceK (placeK result.1)).bind fun balanced => some (balanced, result.2)).map
          (renameResult f) := by
  cases below with
  | none => rfl
  | some result =>
    simp only [Option.map_some, Option.bind_some, renameResult, places, rebalances]
    cases rebalanceK (placeK result.1) <;> rfl

end Path

section Compare

variable {compK : K → K → Bool} {compL : L → L → Bool}
  (agrees : ∀ first second, compL (f first) (f second) = compK first second)

include agrees

theorem keyBelow_rename (key : K) (tree : AVLNode K V) :
    keyBelow compL (f key) (tree.rename f) = keyBelow compK key tree := by
  cases tree with
  | nullptr => rfl
  | node => exact congrArg some (agrees _ _)

theorem keyAbove_rename (key : K) (tree : AVLNode K V) :
    keyAbove compL (f key) (tree.rename f) = keyAbove compK key tree := by
  cases tree with
  | nullptr => rfl
  | node => exact congrArg some (agrees _ _)

theorem rebalanceInserted_rename (key : K) (changed : AVLNode K V) :
    rebalanceInserted compL (f key) (changed.rename f) =
      (rebalanceInserted compK key changed).map (rename f) := by
  rw [rebalanceInserted, rebalanceInserted, updateHeight_rename]
  cases changed.updateHeight with
  | nullptr => rfl
  | node nodeKey value height left right =>
    have whole : (node nodeKey value height left right).rename f =
      node (f nodeKey) value height (left.rename f) (right.rename f) := rfl
    have last : some ((node nodeKey value height left right).rename f) =
      (some (node nodeKey value height left right)).map (rename f) := rfl
    rw [whole]
    simp only [← whole, keyBelow_rename agrees, keyAbove_rename agrees, getBalance_rename,
      rotateRight_rename, rotateLeft_rename, rotateLeftRight_rename, rotateRightLeft_rename]
    -- Each of the four tests chooses between renamed trees.
    simp only [bind, pure, last, choice_rename]

theorem insertNode_rename (key : K) (value : V) (tree : AVLNode K V) :
    insertNode compL (f key) value (tree.rename f) =
      (insertNode compK key value tree).map (renameResult f) := by
  induction tree with
  | nullptr => rfl
  | node nodeKey nodeValue height left right ihLeft ihRight =>
    have rebalances : ∀ tree : AVLNode K V, _ := rebalanceInserted_rename agrees key
    rw [rename, insertNode, insertNode, agrees, agrees, ihLeft, ihRight]
    split
    · exact path_rename rebalances (fun left => node nodeKey nodeValue height left right)
        (fun left => node (f nodeKey) nodeValue height left (right.rename f)) (fun _ => rfl) _
    · split
      · exact path_rename rebalances (fun right => node nodeKey nodeValue height left right)
          (fun right => node (f nodeKey) nodeValue height (left.rename f) right) (fun _ => rfl) _
      · rfl

omit agrees in
theorem findMin_rename (tree : AVLNode K V) :
    (tree.rename f).findMin = tree.findMin.rename f := by
  induction tree with
  | nullptr => rfl
  | node key value height left right ih =>
    cases left with
    | nullptr => rfl
    | node => exact ih

omit agrees in
theorem rebalanceRemoved_rename (changed : AVLNode K V) :
    rebalanceRemoved (changed.rename f) = (rebalanceRemoved changed).map (rename f) := by
  rw [rebalanceRemoved, rebalanceRemoved, updateHeight_rename]
  cases changed.updateHeight with
  | nullptr => rfl
  | node nodeKey value height left right =>
    have whole : (node nodeKey value height left right).rename f =
      node (f nodeKey) value height (left.rename f) (right.rename f) := rfl
    rw [whole]
    simp only [← whole, getBalance_rename, rotateRight_rename, rotateLeft_rename,
      rotateLeftRight_rename, rotateRightLeft_rename, apply_ite (Option.map (rename f)),
      Option.map_some]

theorem removeNode_rename (key : K) (tree : AVLNode K V) :
    removeNode compL (f key) (tree.rename f) =
      (removeNode compK key tree).map (renameResult f) := by
  induction tree generalizing key with
  | nullptr => rfl
  | node nodeKey nodeValue height left right ihLeft ihRight =>
    have rebalances : ∀ tree : AVLNode K V, _ := rebalanceRemoved_rename (f := f)
    rw [rename, removeNode, removeNode, agrees, agrees, ihLeft, ihRight, isNull_rename,
      isNull_rename, findMin_rename]
    split
    · exact path_rename rebalances (fun left => node nodeKey nodeValue height left right)
        (fun left => node (f nodeKey) nodeValue height left (right.rename f)) (fun _ => rfl) _
    · split
      · exact path_rename rebalances (fun right => node nodeKey nodeValue height left right)
          (fun right => node (f nodeKey) nodeValue height (left.rename f) right) (fun _ => rfl) _
      -- The node itself goes: one child takes its place, or its successor does.
      · split
        · cases left.isNull <;> rfl
        · cases right.findMin with
          | nullptr => rfl
          | node successor value _ _ _ =>
            simp only [rename, ihRight]
            exact path_rename rebalances (fun right => node successor value height left right)
              (fun right => node (f successor) value height (left.rename f) right) (fun _ => rfl) _

/-! ### Queries -/

omit agrees in
@[simp] theorem getSubtreeSize_rename (tree : AVLNode K V) :
    (tree.rename f).getSubtreeSize = tree.getSubtreeSize := by
  induction tree with
  | nullptr => rfl
  | node key value height left right ihLeft ihRight =>
    rw [rename, getSubtreeSize, getSubtreeSize, ihLeft, ihRight]

theorem getRank_rename (key : K) (tree : AVLNode K V) :
    (tree.rename f).getRank compL (f key) = tree.getRank compK key := by
  induction tree with
  | nullptr => rfl
  | node nodeKey value height left right ihLeft ihRight =>
    rw [rename, getRank, getRank, agrees, agrees, ihLeft, ihRight, getSubtreeSize_rename]

theorem rangeQuery_rename (start stop : K) (tree : AVLNode K V) (result : List (K × V)) :
    (tree.rename f).rangeQuery compL (f start) (f stop) (result.map (Prod.map f id)) =
      (tree.rangeQuery compK start stop result).map (Prod.map f id) := by
  induction tree generalizing result with
  | nullptr => rfl
  | node key value height left right ihLeft ihRight =>
    rw [rename, rangeQuery, rangeQuery, agrees, agrees]
    split
    · rw [ihLeft, ← ihRight, List.map_append]
      rfl
    · split
      · exact ihRight result
      · exact ihLeft result

omit agrees in
theorem inorderTraversal_rename (tree : AVLNode K V) (result : List (K × V)) :
    (tree.rename f).inorderTraversal (result.map (Prod.map f id)) =
      (tree.inorderTraversal result).map (Prod.map f id) := by
  induction tree generalizing result with
  | nullptr => rfl
  | node key value height left right ihLeft ihRight =>
    rw [rename, inorderTraversal, inorderTraversal, ihLeft, ← ihRight, List.map_append]
    rfl

end Compare
end AVLNode

/-! ### The container -/

namespace AVLTree

def rename (f : K → L) (tree : AVLTree K V) : AVLTree L V := ⟨tree.root.rename f, tree.size⟩

variable {f : K → L} {compK : K → K → Bool} {compL : L → L → Bool}
  (agrees : ∀ first second, compL (f first) (f second) = compK first second)

include agrees

theorem insert_rename (tree : AVLTree K V) (key : K) (value : V) :
    (tree.rename f).insert compL (f key) value =
      (tree.insert compK key value).map (Prod.map id (rename f)) := by
  rw [insert, insert, rename, AVLNode.insertNode_rename agrees]
  cases tree.root.insertNode compK key value <;> rfl

theorem remove_rename (tree : AVLTree K V) (key : K) :
    (tree.rename f).remove compL (f key) =
      (tree.remove compK key).map (Prod.map id (rename f)) := by
  rw [remove, remove, rename, AVLNode.removeNode_rename agrees]
  cases tree.root.removeNode compK key <;> rfl

theorem rank_rename (tree : AVLTree K V) (key : K) :
    (tree.rename f).rank compL (f key) = tree.rank compK key :=
  AVLNode.getRank_rename agrees key tree.root

theorem range_rename (tree : AVLTree K V) (start stop : K) :
    (tree.rename f).range compL (f start) (f stop) =
      (tree.range compK start stop).map (Prod.map f id) :=
  AVLNode.rangeQuery_rename agrees start stop tree.root []

omit agrees in
theorem inorder_rename (tree : AVLTree K V) :
    (tree.rename f).inorder = tree.inorder.map (Prod.map f id) :=
  AVLNode.inorderTraversal_rename tree.root []

end AVLTree
end ScuffedRedis
