import ScuffedRedis.Data.AvlTree
import ScuffedRedis.Foundation.Simulation
import ScuffedRedis.Foundation.SortedEntries

/-!
# The invariant of the AVL tree

A tree of the right shape has correct stored heights and is balanced at every node. Both ways of
rebalancing restore the shape and keep the entries in order, so an insertion or removal in the
tree is one in its sorted list of entries.
-/
namespace ScuffedRedis

open Foundation

namespace AVLNode

variable {K V : Type}

/-! ### The invariant -/

/-- The entries in order. -/
def entries : AVLNode K V → List (K × V)
  | nullptr => []
  | node key value _ left right => left.entries ++ (key, value) :: right.entries

def nodeCount : AVLNode K V → Nat
  | nullptr => 0
  | node _ _ _ left right => 1 + left.nodeCount + right.nodeCount

/-- Every key in a left subtree is below the key of the node, and every key in a right subtree
above it. -/
def Ordered (comp : K → K → Bool) : AVLNode K V → Prop
  | nullptr => True
  | node key _ _ left right =>
    left.Ordered comp ∧ right.Ordered comp ∧ (∀ entry ∈ left.entries, comp entry.1 key = true) ∧
      ∀ entry ∈ right.entries, comp key entry.1 = true

/-- Every stored height is one more than the larger one of the children. -/
def Heighted : AVLNode K V → Prop
  | nullptr => True
  | node _ _ height left right =>
    left.Heighted ∧ right.Heighted ∧ height = 1 + max left.getHeight right.getHeight

def Balanced : AVLNode K V → Prop
  | nullptr => True
  | node key value height left right =>
    left.Balanced ∧ right.Balanced ∧ -1 ≤ getBalance (node key value height left right) ∧
      getBalance (node key value height left right) ≤ 1

structure Shaped (tree : AVLNode K V) : Prop where
  heights : tree.Heighted
  balanced : tree.Balanced

theorem nodeCount_eq (tree : AVLNode K V) : tree.nodeCount = tree.entries.length := by
  induction tree with
  | nullptr => rfl
  | node key value height left right ihLeft ihRight =>
    rw [nodeCount, entries, List.length_append, List.length_cons, ihLeft, ihRight]
    omega

theorem ordered_iff {comp : K → K → Bool} [IsTrans K fun a b => comp a b = true]
    (tree : AVLNode K V) : tree.Ordered comp ↔ SortedEntries.Sorted comp tree.entries := by
  induction tree with
  | nullptr => simp [Ordered, entries, SortedEntries.Sorted]
  | node key value height left right ihLeft ihRight =>
    rw [Ordered, entries, SortedEntries.sorted_append_cons, ihLeft, ihRight]

/-! ### Nodes with their height -/

/-- The node whose height has just been updated. -/
def join (key : K) (value : V) (left right : AVLNode K V) : AVLNode K V :=
  node key value (1 + max left.getHeight right.getHeight) left right

section Join

variable {key : K} {value : V} {height : Int} {left right : AVLNode K V}

@[simp] theorem updateHeight_node :
    updateHeight (node key value height left right) = join key value left right := rfl

@[simp] theorem getHeight_join :
    (join key value left right).getHeight = 1 + max left.getHeight right.getHeight := rfl

@[simp] theorem getBalance_join :
    (join key value left right).getBalance = left.getHeight - right.getHeight := rfl

@[simp] theorem entries_join :
    (join key value left right).entries = left.entries ++ (key, value) :: right.entries := rfl

theorem shaped_nullptr : (nullptr : AVLNode K V).Shaped := ⟨trivial, trivial⟩

theorem shaped_join : (join key value left right).Shaped ↔
    left.Shaped ∧ right.Shaped ∧ -1 ≤ left.getHeight - right.getHeight ∧
      left.getHeight - right.getHeight ≤ 1 := by
  constructor
  · rintro ⟨⟨heightsLeft, heightsRight, -⟩, balancedLeft, balancedRight, near⟩
    exact ⟨⟨heightsLeft, balancedLeft⟩, ⟨heightsRight, balancedRight⟩, near⟩
  · rintro ⟨⟨heightsLeft, balancedLeft⟩, ⟨heightsRight, balancedRight⟩, near⟩
    exact ⟨⟨heightsLeft, heightsRight, rfl⟩, balancedLeft, balancedRight, near⟩

/-- A node of the right shape is the one whose height has just been updated. -/
theorem Shaped.eq_join (shaped : (node key value height left right).Shaped) :
    node key value height left right = join key value left right := by
  rw [join, ← shaped.heights.2.2]

end Join

theorem Shaped.height_nonneg {tree : AVLNode K V} (shaped : tree.Shaped) : 0 ≤ tree.getHeight := by
  induction tree with
  | nullptr => exact le_refl _
  | node key value height left right ihLeft ihRight =>
    have same := shaped.eq_join
    rw [same] at shaped ⊢
    have := ihLeft (shaped_join.mp shaped).1
    rw [getHeight_join]
    omega

/-- A tree of positive height is a node. -/
theorem Shaped.exists_join {tree : AVLNode K V} (shaped : tree.Shaped)
    (positive : 0 < tree.getHeight) :
    ∃ key value left right, tree = join key value left right := by
  cases tree with
  | nullptr => exact absurd positive (lt_irrefl _)
  | node key value height left right => exact ⟨key, value, left, right, shaped.eq_join⟩

/-! ### Rebalancing -/

section Rebalance

variable {key : K} {value : V} {height : Int} {left right : AVLNode K V}

theorem rotateRight_join (lKey : K) (lValue : V) (outer inner : AVLNode K V) :
    rotateRight (join key value (join lKey lValue outer inner) right) =
      some (join lKey lValue outer (join key value inner right)) := rfl

theorem rotateLeft_join (rKey : K) (rValue : V) (inner outer : AVLNode K V) :
    rotateLeft (join key value left (join rKey rValue inner outer)) =
      some (join rKey rValue (join key value left inner) outer) := rfl

theorem rotateLeftRight_join (lKey mKey : K) (lValue mValue : V)
    (outer before after : AVLNode K V) :
    rotateLeftRight
        (join key value (join lKey lValue outer (join mKey mValue before after)) right) =
      some (join mKey mValue (join lKey lValue outer before) (join key value after right)) := rfl

theorem rotateRightLeft_join (rKey mKey : K) (rValue mValue : V)
    (before after outer : AVLNode K V) :
    rotateRightLeft
        (join key value left (join rKey rValue (join mKey mValue before after) outer)) =
      some (join mKey mValue (join key value left before) (join rKey rValue after outer)) := rfl

/-- What rebalancing makes of a node whose children are of the right shape. -/
structure Rebalanced (key : K) (value : V) (left right tree : AVLNode K V) : Prop where
  shaped : tree.Shaped
  entries : tree.entries = left.entries ++ (key, value) :: right.entries
  /-- Nothing is rotated unless one child is higher by two. -/
  near : -1 ≤ left.getHeight - right.getHeight → left.getHeight - right.getHeight ≤ 1 →
    tree = join key value left right
  leftHeavy : left.getHeight = right.getHeight + 2 →
    tree.getHeight = left.getHeight ∨ (left.getBalance = 0 ∧ tree.getHeight = left.getHeight + 1)
  rightHeavy : right.getHeight = left.getHeight + 2 →
    tree.getHeight = right.getHeight ∨ (right.getBalance = 0 ∧ tree.getHeight = right.getHeight + 1)

section Rotated

variable {cKey mKey : K} {cValue mValue : V} {outer inner before after : AVLNode K V}
  (shapedOuter : outer.Shaped)

include shapedOuter

theorem rebalanced_rotateRight (shapedInner : inner.Shaped) (shapedRight : right.Shaped)
    (heavy : (join cKey cValue outer inner).getHeight = right.getHeight + 2)
    (leans : inner.getHeight ≤ outer.getHeight) (near : outer.getHeight ≤ inner.getHeight + 1) :
    Rebalanced key value (join cKey cValue outer inner) right
      (join cKey cValue outer (join key value inner right)) := by
  rw [getHeight_join] at heavy
  constructor
  · refine shaped_join.mpr ⟨shapedOuter, shaped_join.mpr ⟨shapedInner, shapedRight, ?_⟩, ?_⟩
    · omega
    · rw [getHeight_join]
      omega
  · simp
  · rw [getHeight_join]
    omega
  · intro _
    simp only [getHeight_join, getBalance_join]
    omega
  · rw [getHeight_join]
    omega

theorem rebalanced_rotateLeft (shapedInner : inner.Shaped) (shapedLeft : left.Shaped)
    (heavy : (join cKey cValue inner outer).getHeight = left.getHeight + 2)
    (leans : inner.getHeight ≤ outer.getHeight) (near : outer.getHeight ≤ inner.getHeight + 1) :
    Rebalanced key value left (join cKey cValue inner outer)
      (join cKey cValue (join key value left inner) outer) := by
  rw [getHeight_join] at heavy
  constructor
  · refine shaped_join.mpr ⟨shaped_join.mpr ⟨shapedLeft, shapedInner, ?_⟩, shapedOuter, ?_⟩
    · omega
    · rw [getHeight_join]
      omega
  · simp
  · rw [getHeight_join]
    omega
  · rw [getHeight_join]
    omega
  · intro _
    simp only [getHeight_join, getBalance_join]
    omega

theorem rebalanced_rotateLeftRight (shapedInner : (join mKey mValue before after).Shaped)
    (shapedRight : right.Shaped)
    (heavy : (join cKey cValue outer (join mKey mValue before after)).getHeight =
      right.getHeight + 2)
    (leans : (join mKey mValue before after).getHeight = outer.getHeight + 1) :
    Rebalanced key value (join cKey cValue outer (join mKey mValue before after)) right
      (join mKey mValue (join cKey cValue outer before) (join key value after right)) := by
  obtain ⟨shapedBefore, shapedAfter, near⟩ := shaped_join.mp shapedInner
  simp only [getHeight_join] at heavy leans
  constructor
  -- The middle node comes to the top, between the halves of the inner subtree.
  · refine shaped_join.mpr ⟨shaped_join.mpr ⟨shapedOuter, shapedBefore, ?_⟩,
      shaped_join.mpr ⟨shapedAfter, shapedRight, ?_⟩, ?_⟩
    · omega
    · omega
    · simp only [getHeight_join]
      omega
  · simp
  · simp only [getHeight_join]
    omega
  · intro _
    simp only [getHeight_join, getBalance_join]
    omega
  · simp only [getHeight_join]
    omega

theorem rebalanced_rotateRightLeft (shapedInner : (join mKey mValue before after).Shaped)
    (shapedLeft : left.Shaped)
    (heavy : (join cKey cValue (join mKey mValue before after) outer).getHeight =
      left.getHeight + 2)
    (leans : (join mKey mValue before after).getHeight = outer.getHeight + 1) :
    Rebalanced key value left (join cKey cValue (join mKey mValue before after) outer)
      (join mKey mValue (join key value left before) (join cKey cValue after outer)) := by
  obtain ⟨shapedBefore, shapedAfter, near⟩ := shaped_join.mp shapedInner
  simp only [getHeight_join] at heavy leans
  constructor
  · refine shaped_join.mpr ⟨shaped_join.mpr ⟨shapedLeft, shapedBefore, ?_⟩,
      shaped_join.mpr ⟨shapedAfter, shapedOuter, ?_⟩, ?_⟩
    · omega
    · omega
    · simp only [getHeight_join]
      omega
  · simp
  · simp only [getHeight_join]
    omega
  · simp only [getHeight_join]
    omega
  · intro _
    simp only [getHeight_join, getBalance_join]
    omega

end Rotated

theorem rebalanceRemoved_node : rebalanceRemoved (node key value height left right) =
    if left.getHeight - right.getHeight > 1 ∧ left.getBalance ≥ 0 then
      rotateRight (join key value left right)
    else if left.getHeight - right.getHeight > 1 ∧ left.getBalance < 0 then
      rotateLeftRight (join key value left right)
    else if left.getHeight - right.getHeight < -1 ∧ right.getBalance ≤ 0 then
      rotateLeft (join key value left right)
    else if left.getHeight - right.getHeight < -1 ∧ right.getBalance > 0 then
      rotateRightLeft (join key value left right)
    else some (join key value left right) := rfl

/-- Rebalancing after a removal succeeds when the children differ by at most two. -/
theorem rebalanceRemoved_spec (key : K) (value : V) (height : Int) (shapedLeft : left.Shaped)
    (shapedRight : right.Shaped) (lower : -2 ≤ left.getHeight - right.getHeight)
    (upper : left.getHeight - right.getHeight ≤ 2) :
    ∃ tree, rebalanceRemoved (node key value height left right) = some tree ∧
      Rebalanced key value left right tree := by
  have nonnegLeft := shapedLeft.height_nonneg
  have nonnegRight := shapedRight.height_nonneg
  rw [rebalanceRemoved_node]
  by_cases leftHeavy : left.getHeight - right.getHeight > 1
  -- The heavy child is no null pointer, and neither is its inner child when that is the higher.
  · obtain ⟨cKey, cValue, outer, inner, rfl⟩ := shapedLeft.exists_join (by omega)
    obtain ⟨shapedOuter, shapedInner, nearLeft⟩ := shaped_join.mp shapedLeft
    by_cases leans : (join cKey cValue outer inner).getBalance ≥ 0
    · rw [if_pos ⟨leftHeavy, leans⟩]
      rw [getBalance_join] at leans
      exact ⟨_, rotateRight_join cKey cValue outer inner,
        rebalanced_rotateRight shapedOuter shapedInner shapedRight (by omega) (by omega) (by omega)⟩
    · rw [if_neg (fun test => leans test.2), if_pos ⟨leftHeavy, not_le.mp leans⟩]
      rw [getBalance_join] at leans
      have nonnegOuter := shapedOuter.height_nonneg
      obtain ⟨mKey, mValue, before, after, rfl⟩ := shapedInner.exists_join (by omega)
      exact ⟨_, rotateLeftRight_join cKey mKey cValue mValue outer before after,
        rebalanced_rotateLeftRight shapedOuter shapedInner shapedRight (by omega) (by omega)⟩
  · rw [if_neg (fun test => leftHeavy test.1), if_neg (fun test => leftHeavy test.1)]
    by_cases rightHeavy : left.getHeight - right.getHeight < -1
    · obtain ⟨cKey, cValue, inner, outer, rfl⟩ := shapedRight.exists_join (by omega)
      obtain ⟨shapedInner, shapedOuter, nearRight⟩ := shaped_join.mp shapedRight
      by_cases leans : (join cKey cValue inner outer).getBalance ≤ 0
      · rw [if_pos ⟨rightHeavy, leans⟩]
        rw [getBalance_join] at leans
        exact ⟨_, rotateLeft_join cKey cValue inner outer,
          rebalanced_rotateLeft shapedOuter shapedInner shapedLeft (by omega) (by omega) (by omega)⟩
      · rw [if_neg (fun test => leans test.2), if_pos ⟨rightHeavy, not_le.mp leans⟩]
        rw [getBalance_join] at leans
        have nonnegOuter := shapedOuter.height_nonneg
        obtain ⟨mKey, mValue, before, after, rfl⟩ := shapedInner.exists_join (by omega)
        exact ⟨_, rotateRightLeft_join cKey mKey cValue mValue before after outer,
          rebalanced_rotateRightLeft shapedOuter shapedInner shapedLeft (by omega) (by omega)⟩
    -- Nothing is rotated, and only the stored height is new.
    · rw [if_neg (fun test => rightHeavy test.1), if_neg (fun test => rightHeavy test.1)]
      refine ⟨_, rfl, ?_, rfl, fun _ _ => rfl, ?_, ?_⟩
      · exact shaped_join.mpr ⟨shapedLeft, shapedRight, by omega, by omega⟩
      · omega
      · omega

end Rebalance

/-! ### Insertion -/

section Insert

variable {comp : K → K → Bool} {key : K} {value : V}

/-- The node's higher child is on the side of `key`. -/
def Leans (comp : K → K → Bool) (key : K) : AVLNode K V → Prop
  | nullptr => False
  | node other _ _ left right =>
    (comp key other = true ∧ left.getHeight = right.getHeight + 1) ∨
      (comp other key = true ∧ right.getHeight = left.getHeight + 1)

theorem Leans.balance_ne {tree : AVLNode K V} (leans : Leans comp key tree) :
    tree.getBalance ≠ 0 := by
  match tree, leans with
  | node _ _ _ left right, .inl ⟨_, higher⟩ =>
    rw [getBalance]
    omega
  | node _ _ _ left right, .inr ⟨_, higher⟩ =>
    rw [getBalance]
    omega

theorem whenever_pos {test : Prop} [Decidable test] (holds : test) (deref : Option Bool) :
    whenever test deref = deref := if_pos holds

theorem whenever_neg {test : Prop} [Decidable test] (fails : ¬ test) (deref : Option Bool) :
    whenever test deref = some false := if_neg fails

section Choice

variable [IsStrictOrder K fun a b => comp a b = true] {nodeKey : K} {nodeValue : V} {height : Int}
  {left right : AVLNode K V}

/-- Insertion chooses its rotation by the keys, removal by the heights. Where the child that has
become too high leans to the key, they choose the same. -/
theorem rebalanceInserted_eq
    (leftLeans : left.getHeight - right.getHeight > 1 → Leans comp key left)
    (rightLeans : left.getHeight - right.getHeight < -1 → Leans comp key right) :
    rebalanceInserted comp key (node nodeKey nodeValue height left right) =
      rebalanceRemoved (node nodeKey nodeValue height left right) := by
  have asymmetric : ∀ {a b : K}, comp a b = true → comp b a = false := fun lower =>
    Bool.eq_false_of_not_eq_true (asymm_of (fun a b => comp a b = true) lower)
  rw [rebalanceRemoved_node, rebalanceInserted, updateHeight_node, join]
  dsimp only
  -- The four tests of the source, each guarded by the height before it reads a child.
  change (do
    if ← whenever (left.getHeight - right.getHeight > 1) (keyBelow comp key left) then _
    else if ← whenever (left.getHeight - right.getHeight < -1) (keyAbove comp key right) then _
    else if ← whenever (left.getHeight - right.getHeight > 1) (keyAbove comp key left) then _
    else if ← whenever (left.getHeight - right.getHeight < -1) (keyBelow comp key right) then _
    else _) = _
  by_cases leftHeavy : left.getHeight - right.getHeight > 1
  · have leans := leftLeans leftHeavy
    have notRight : ¬ left.getHeight - right.getHeight < -1 := by omega
    rw [whenever_pos leftHeavy, whenever_neg notRight, whenever_pos leftHeavy]
    -- The key test of the insertion agrees with the sign of the child's balance.
    match left, leans with
    | node other _ _ outer inner, .inl ⟨lower, higher⟩ =>
      rw [if_pos ⟨leftHeavy, by rw [getBalance]; omega⟩, keyBelow, lower]
      rfl
    | node other otherValue otherHeight outer inner, .inr ⟨upper, higher⟩ =>
      have leansRight : getBalance (node other otherValue otherHeight outer inner) < 0 := by
        rw [getBalance]
        omega
      rw [if_neg (fun test => not_le.mpr leansRight test.2), if_pos ⟨leftHeavy, leansRight⟩,
        keyBelow, keyAbove, upper, asymmetric upper]
      rfl
  · rw [whenever_neg leftHeavy, whenever_neg leftHeavy, if_neg (fun test => leftHeavy test.1),
      if_neg (fun test => leftHeavy test.1)]
    by_cases rightHeavy : left.getHeight - right.getHeight < -1
    · have leans := rightLeans rightHeavy
      rw [whenever_pos rightHeavy, whenever_pos rightHeavy]
      match right, leans with
      | node other _ _ inner outer, .inr ⟨upper, higher⟩ =>
        rw [if_pos ⟨rightHeavy, by rw [getBalance]; omega⟩, keyAbove, upper]
        rfl
      | node other otherValue otherHeight inner outer, .inl ⟨lower, higher⟩ =>
        have leansLeft : getBalance (node other otherValue otherHeight inner outer) > 0 := by
          rw [getBalance]
          omega
        rw [if_neg (fun test => not_le.mpr leansLeft test.2), if_pos ⟨rightHeavy, leansLeft⟩,
          keyBelow, keyAbove, lower, asymmetric lower]
        rfl
    · rw [whenever_neg rightHeavy, whenever_neg rightHeavy, if_neg (fun test => rightHeavy test.1),
        if_neg (fun test => rightHeavy test.1)]
      rfl

end Choice

/-- What an insertion makes of a tree. -/
structure Inserted (comp : K → K → Bool) (key : K) (value : V) (old new : AVLNode K V) : Prop where
  shaped : new.Shaped
  entries : new.entries = SortedEntries.insert comp key value old.entries
  height : new.getHeight = old.getHeight ∨ new.getHeight = old.getHeight + 1
  leans : new.getHeight = old.getHeight + 1 → new.getHeight = 1 ∨ Leans comp key new

theorem shaped_single : (node key value 1 nullptr nullptr).Shaped :=
  shaped_join.mpr ⟨shaped_nullptr, shaped_nullptr, by simp, by simp⟩

section Side

variable [IsStrictWeakOrder K fun a b => comp a b = true] {nodeKey : K} {nodeValue : V}
  (height : Int) {left right new : AVLNode K V}
  (shaped : (join nodeKey nodeValue left right).Shaped)

include shaped

/-- An insertion in the left subtree makes one in the tree. -/
theorem inserted_left (lower : comp key nodeKey = true)
    (inserted : Inserted comp key value left new) :
    ∃ tree, rebalanceInserted comp key (node nodeKey nodeValue height new right) = some tree ∧
      Inserted comp key value (join nodeKey nodeValue left right) tree := by
  obtain ⟨shapedLeft, shapedRight, near⟩ := shaped_join.mp shaped
  have nonneg := shapedRight.height_nonneg
  have grown := inserted.height
  -- The subtree is too high only when it has grown, and then it leans to the key.
  have leans : new.getHeight - right.getHeight > 1 → Leans comp key new := by
    intro heavy
    rcases inserted.leans (by omega) with single | leans
    · omega
    · exact leans
  rw [rebalanceInserted_eq leans (by omega)]
  obtain ⟨tree, call, rebalanced⟩ := rebalanceRemoved_spec nodeKey nodeValue height
    inserted.shaped shapedRight (by omega) (by omega)
  have entries : tree.entries =
      SortedEntries.insert comp key value (join nodeKey nodeValue left right).entries := by
    rw [rebalanced.entries, inserted.entries, entries_join,
      SortedEntries.insert_append_of_below lower]
  refine ⟨tree, call, ?_⟩
  -- A rotation after an insertion restores the height; without one the tree may grow.
  by_cases heavy : new.getHeight = right.getHeight + 2
  · have balance := (leans (by omega)).balance_ne
    have restored : tree.getHeight = (join nodeKey nodeValue left right).getHeight := by
      rw [getHeight_join]
      rcases rebalanced.leftHeavy heavy with same | ⟨even, -⟩
      · omega
      · exact absurd even balance
    exact ⟨rebalanced.shaped, entries, .inl restored, fun higher => by omega⟩
  · have same := rebalanced.near (by omega) (by omega)
    have height : tree.getHeight = 1 + max new.getHeight right.getHeight := by
      rw [same, getHeight_join]
    refine ⟨rebalanced.shaped, entries, ?_, fun higher => .inr ?_⟩
    · rw [height, getHeight_join]
      omega
    · rw [height, getHeight_join] at higher
      rw [same]
      exact .inl ⟨lower, by omega⟩

/-- The same on the right. -/
theorem inserted_right (under : ∀ entry ∈ left.entries, comp entry.1 nodeKey = true)
    (upper : comp nodeKey key = true) (inserted : Inserted comp key value right new) :
    ∃ tree, rebalanceInserted comp key (node nodeKey nodeValue height left new) = some tree ∧
      Inserted comp key value (join nodeKey nodeValue left right) tree := by
  obtain ⟨shapedLeft, shapedRight, near⟩ := shaped_join.mp shaped
  have nonneg := shapedLeft.height_nonneg
  have grown := inserted.height
  -- As on the left: too high only after growing, and then on the side of the key.
  have leans : left.getHeight - new.getHeight < -1 → Leans comp key new := by
    intro heavy
    rcases inserted.leans (by omega) with single | leans
    · omega
    · exact leans
  rw [rebalanceInserted_eq (by omega) leans]
  obtain ⟨tree, call, rebalanced⟩ := rebalanceRemoved_spec nodeKey nodeValue height
    shapedLeft inserted.shaped (by omega) (by omega)
  have entries : tree.entries =
      SortedEntries.insert comp key value (join nodeKey nodeValue left right).entries := by
    rw [rebalanced.entries, inserted.entries, entries_join,
      SortedEntries.insert_append_of_above under upper]
  refine ⟨tree, call, ?_⟩
  by_cases heavy : new.getHeight = left.getHeight + 2
  · have balance := (leans (by omega)).balance_ne
    have restored : tree.getHeight = (join nodeKey nodeValue left right).getHeight := by
      rw [getHeight_join]
      rcases rebalanced.rightHeavy heavy with same | ⟨even, -⟩
      · omega
      · exact absurd even balance
    exact ⟨rebalanced.shaped, entries, .inl restored, fun higher => by omega⟩
  · have same := rebalanced.near (by omega) (by omega)
    have height : tree.getHeight = 1 + max left.getHeight new.getHeight := by
      rw [same, getHeight_join]
    refine ⟨rebalanced.shaped, entries, ?_, fun higher => .inr ?_⟩
    · rw [height, getHeight_join]
      omega
    · rw [height, getHeight_join] at higher
      rw [same]
      exact .inr ⟨upper, by omega⟩

end Side

theorem insertNode_spec [IsStrictWeakOrder K fun a b => comp a b = true] (key : K) (value : V)
    {tree : AVLNode K V}
    (shaped : tree.Shaped) (sorted : SortedEntries.Sorted comp tree.entries) :
    ∃ new, insertNode comp key value tree =
        some (new, !SortedEntries.present comp key tree.entries) ∧
      Inserted comp key value tree new := by
  -- The induction is on the tree, and the cases are the comparisons of one call.
  induction tree with
  | nullptr => exact ⟨_, rfl, shaped_single, rfl, .inr rfl, fun _ => .inl rfl⟩
  | node nodeKey nodeValue height left right ihLeft ihRight =>
    have same := shaped.eq_join
    rw [same] at shaped
    obtain ⟨shapedLeft, shapedRight, near⟩ := shaped_join.mp shaped
    obtain ⟨sortedLeft, sortedRight, under, above⟩ := SortedEntries.sorted_append_cons.mp sorted
    by_cases below : comp key nodeKey = true
    · obtain ⟨newLeft, call, inserted⟩ := ihLeft shapedLeft sortedLeft
      obtain ⟨new, balanced, inserted⟩ := inserted_left height shaped below inserted
      refine ⟨new, ?_, by rw [same]; exact inserted⟩
      rw [insertNode, if_pos below, call, entries, SortedEntries.present_append_of_below below]
      change (do let balanced ← rebalanceInserted comp key _; return (balanced, _)) = _
      rw [balanced]
      rfl
    · by_cases above : comp nodeKey key = true
      · obtain ⟨newRight, call, inserted⟩ := ihRight shapedRight sortedRight
        obtain ⟨new, balanced, inserted⟩ :=
          inserted_right height shaped under above inserted
        refine ⟨new, ?_, by rw [same]; exact inserted⟩
        rw [insertNode, if_neg below, if_pos above, call, entries,
          SortedEntries.present_append_of_above under above]
        change (do let balanced ← rebalanceInserted comp key _; return (balanced, _)) = _
        rw [balanced]
        rfl
      -- An equivalent key: the node keeps its key and place, and its value is replaced.
      · rw [insertNode, if_neg below, if_neg above, entries,
          SortedEntries.present_append_of_equivalent under below above]
        have stored : height = 1 + max left.getHeight right.getHeight := by
          cases same
          rfl
        refine ⟨_, rfl, ?_, ?_, .inl rfl, fun higher => ?_⟩
        · rw [stored]
          exact shaped_join.mpr ⟨shapedLeft, shapedRight, near⟩
        · exact (SortedEntries.insert_append_of_equivalent under below above).symm
        · change height = height + 1 at higher
          omega

end Insert

/-! ### Removal -/

section Remove

variable {comp : K → K → Bool} {key : K}

/-- The smallest entry of a tree that is not empty is its first one. -/
theorem findMin_spec (nodeKey : K) (nodeValue : V) (height : Int) (left right : AVLNode K V) :
    ∃ minKey minValue minHeight minLeft minRight others,
      findMin (node nodeKey nodeValue height left right) =
          node minKey minValue minHeight minLeft minRight ∧
        (node nodeKey nodeValue height left right).entries = (minKey, minValue) :: others := by
  induction left generalizing nodeKey nodeValue height right with
  | nullptr => exact ⟨nodeKey, nodeValue, height, nullptr, right, right.entries, rfl, rfl⟩
  | node leftKey leftValue leftHeight outer inner ih _ =>
    obtain ⟨minKey, minValue, minHeight, minLeft, minRight, others, found, split⟩ :=
      ih leftKey leftValue leftHeight inner
    refine ⟨minKey, minValue, minHeight, minLeft, minRight,
      others ++ (nodeKey, nodeValue) :: right.entries, found, ?_⟩
    rw [AVLNode.entries, split, List.cons_append]

/-- What a removal makes of a tree. -/
structure Removed (comp : K → K → Bool) (key : K) (old new : AVLNode K V) : Prop where
  shaped : new.Shaped
  entries : new.entries = SortedEntries.erase comp key old.entries
  height : new.getHeight = old.getHeight ∨ new.getHeight + 1 = old.getHeight

section Side

variable {nodeKey : K} {nodeValue : V} (height : Int) {left right new : AVLNode K V}
  (shaped : (join nodeKey nodeValue left right).Shaped)

include shaped

/-- When one child has become lower by at most one, rebalancing makes the tree lower by at most
one. -/
theorem rebalanced_left (shapedNew : new.Shaped)
    (shrunk : new.getHeight = left.getHeight ∨ new.getHeight + 1 = left.getHeight) :
    ∃ tree, rebalanceRemoved (node nodeKey nodeValue height new right) = some tree ∧
      tree.Shaped ∧ tree.entries = new.entries ++ (nodeKey, nodeValue) :: right.entries ∧
      (tree.getHeight = (join nodeKey nodeValue left right).getHeight ∨
        tree.getHeight + 1 = (join nodeKey nodeValue left right).getHeight) := by
  obtain ⟨shapedLeft, shapedRight, near⟩ := shaped_join.mp shaped
  obtain ⟨tree, call, rebalanced⟩ := rebalanceRemoved_spec nodeKey nodeValue height
    shapedNew shapedRight (by omega) (by omega)
  refine ⟨tree, call, rebalanced.shaped, rebalanced.entries, ?_⟩
  rw [getHeight_join]
  -- The other child is too high by two only if this one was the lower already.
  by_cases heavy : right.getHeight = new.getHeight + 2
  · have restored := rebalanced.rightHeavy heavy
    omega
  · rw [rebalanced.near (by omega) (by omega), getHeight_join]
    omega

theorem rebalanced_right (shapedNew : new.Shaped)
    (shrunk : new.getHeight = right.getHeight ∨ new.getHeight + 1 = right.getHeight) (otherKey : K)
    (otherValue : V) :
    ∃ tree, rebalanceRemoved (node otherKey otherValue height left new) = some tree ∧
      tree.Shaped ∧ tree.entries = left.entries ++ (otherKey, otherValue) :: new.entries ∧
      (tree.getHeight = (join nodeKey nodeValue left right).getHeight ∨
        tree.getHeight + 1 = (join nodeKey nodeValue left right).getHeight) := by
  obtain ⟨shapedLeft, shapedRight, near⟩ := shaped_join.mp shaped
  obtain ⟨tree, call, rebalanced⟩ := rebalanceRemoved_spec otherKey otherValue height
    shapedLeft shapedNew (by omega) (by omega)
  refine ⟨tree, call, rebalanced.shaped, rebalanced.entries, ?_⟩
  rw [getHeight_join]
  -- Only when the other side has become too high is there a rotation.
  by_cases heavy : left.getHeight = new.getHeight + 2
  · have restored := rebalanced.leftHeavy heavy
    omega
  · rw [rebalanced.near (by omega) (by omega), getHeight_join]
    omega

end Side

section Found

variable [IsStrictWeakOrder K fun a b => comp a b = true] {nodeKey : K} {nodeValue : V}
  (height : Int) {left right : AVLNode K V} (shaped : (join nodeKey nodeValue left right).Shaped)
  (under : ∀ entry ∈ left.entries, comp entry.1 nodeKey = true)
  (below : ¬ comp key nodeKey = true) (above : ¬ comp nodeKey key = true)

include shaped under below above

/-- Without a left child the right one takes the place of the node. -/
theorem removed_right (null : left = nullptr) :
    Removed comp key (join nodeKey nodeValue left right) right := by
  obtain ⟨-, shapedRight, near⟩ := shaped_join.mp shaped
  have nonneg := shapedRight.height_nonneg
  refine ⟨shapedRight, ?_, .inr ?_⟩
  · rw [entries_join, SortedEntries.erase_append_of_equivalent under below above, null]
    rfl
  · rw [null, getHeight] at near
    rw [getHeight_join, null, getHeight]
    omega

theorem removed_left (null : right = nullptr) :
    Removed comp key (join nodeKey nodeValue left right) left := by
  obtain ⟨shapedLeft, -, near⟩ := shaped_join.mp shaped
  have nonneg := shapedLeft.height_nonneg
  refine ⟨shapedLeft, ?_, .inr ?_⟩
  · rw [entries_join, SortedEntries.erase_append_of_equivalent under below above, null]
    exact (List.append_nil _).symm
  · rw [null, getHeight] at near
    rw [getHeight_join, null, getHeight]
    omega

/-- The node is removed when the successor can be removed from the right subtree. -/
theorem removeNode_found
    (successor : ∀ key, ∃ new, removeNode comp key right =
      some (new, SortedEntries.present comp key right.entries) ∧ Removed comp key right new) :
    ∃ new, removeNode comp key (node nodeKey nodeValue height left right) = some (new, true) ∧
      Removed comp key (join nodeKey nodeValue left right) new := by
  rw [removeNode, if_neg below, if_neg above]
  cases left with
  | nullptr => exact ⟨right, rfl, removed_right shaped under below above rfl⟩
  | node lKey lValue lHeight lOuter lInner =>
    cases right with
    | nullptr => exact ⟨_, rfl, removed_left shaped under below above rfl⟩
    | node rKey rValue rHeight rInner rOuter =>
      obtain ⟨minKey, minValue, minHeight, minLeft, minRight, others, min, split⟩ :=
        findMin_spec rKey rValue rHeight rInner rOuter
      obtain ⟨newRight, call, removed⟩ := successor minKey
      obtain ⟨new, balanced, shapedNew, entries, height⟩ :=
        rebalanced_right height shaped removed.shaped removed.height minKey minValue
      -- The successor is the first entry on the right, so it is the one that goes there.
      have itself : ¬ comp minKey minKey = true := irrefl_of (fun a b => comp a b = true) minKey
      have listed : SortedEntries.present comp minKey ((minKey, minValue) :: others) = true := by
        rw [SortedEntries.present, if_neg itself, if_neg itself]
      have remaining : SortedEntries.erase comp minKey ((minKey, minValue) :: others) = others := by
        rw [SortedEntries.erase, if_neg itself, if_neg itself]
      refine ⟨new, ?_, shapedNew, ?_, height⟩
      · rw [if_neg (by simp [isNull]), min]
        dsimp only
        rw [call, split, listed]
        change (do let balanced ← rebalanceRemoved _; return (balanced, _)) = _
        rw [balanced]
        rfl
      · rw [entries, removed.entries, split, remaining, entries_join,
          SortedEntries.erase_append_of_equivalent under below above, split]

end Found

theorem removeNode_spec [IsStrictWeakOrder K fun a b => comp a b = true] {tree : AVLNode K V}
    (shaped : tree.Shaped) (sorted : SortedEntries.Sorted comp tree.entries) (key : K) :
    ∃ new, removeNode comp key tree =
        some (new, SortedEntries.present comp key tree.entries) ∧
      Removed comp key tree new := by
  -- The key varies in the induction: a node with two children removes its successor's key.
  induction tree generalizing key with
  | nullptr => exact ⟨_, rfl, shaped_nullptr, rfl, .inl rfl⟩
  | node nodeKey nodeValue height left right ihLeft ihRight =>
    have same := shaped.eq_join
    rw [same] at shaped
    obtain ⟨shapedLeft, shapedRight, near⟩ := shaped_join.mp shaped
    obtain ⟨sortedLeft, sortedRight, under, -⟩ := SortedEntries.sorted_append_cons.mp sorted
    by_cases below : comp key nodeKey = true
    · obtain ⟨newLeft, call, removed⟩ := ihLeft shapedLeft sortedLeft key
      obtain ⟨new, balanced, shapedNew, entries, height⟩ :=
        rebalanced_left height shaped removed.shaped removed.height
      refine ⟨new, ?_, shapedNew, ?_, by rw [same]; exact height⟩
      · rw [removeNode, if_pos below, call, AVLNode.entries,
          SortedEntries.present_append_of_below below]
        change (do let balanced ← rebalanceRemoved _; return (balanced, _)) = _
        rw [balanced]
        rfl
      · rw [entries, removed.entries, AVLNode.entries, SortedEntries.erase_append_of_below below]
    · by_cases above : comp nodeKey key = true
      · obtain ⟨newRight, call, removed⟩ := ihRight shapedRight sortedRight key
        obtain ⟨new, balanced, shapedNew, entries, height⟩ :=
          rebalanced_right height shaped removed.shaped removed.height nodeKey nodeValue
        refine ⟨new, ?_, shapedNew, ?_, by rw [same]; exact height⟩
        · rw [removeNode, if_neg below, if_pos above, call, AVLNode.entries,
            SortedEntries.present_append_of_above under above]
          change (do let balanced ← rebalanceRemoved _; return (balanced, _)) = _
          rw [balanced]
          rfl
        · rw [entries, removed.entries, AVLNode.entries,
            SortedEntries.erase_append_of_above under above]
      · rw [AVLNode.entries, SortedEntries.present_append_of_equivalent under below above, same]
        obtain ⟨new, call, removed⟩ := removeNode_found height shaped under below above
          (ihRight shapedRight sortedRight)
        exact ⟨new, by rw [← same]; exact call, removed⟩

end Remove

/-! ### Height -/

/-- A tree of the right shape has Fibonacci many nodes for its height. -/
theorem Shaped.fib_le {tree : AVLNode K V} (shaped : tree.Shaped) :
    Nat.fib (tree.getHeight.toNat + 2) ≤ tree.nodeCount + 1 := by
  induction tree with
  | nullptr => exact le_refl 1
  | node key value height left right ihLeft ihRight =>
    have same := shaped.eq_join
    rw [same] at shaped
    obtain ⟨shapedLeft, shapedRight, near⟩ := shaped_join.mp shaped
    have nonnegLeft := shapedLeft.height_nonneg
    have nonnegRight := shapedRight.height_nonneg
    have countLeft := ihLeft shapedLeft
    have countRight := ihRight shapedRight
    rw [same, getHeight_join]
    have sum : ∀ n, Nat.fib (n + 3) = Nat.fib (n + 1) + Nat.fib (n + 2) := fun n => Nat.fib_add_two
    have whole : (1 + max left.getHeight right.getHeight).toNat + 2 =
        (max left.getHeight right.getHeight).toNat + 3 := by
      omega
    rw [whole, sum]
    change _ ≤ 1 + left.nodeCount + right.nodeCount + 1
    -- One child has the larger height, the other one at most one less.
    rcases le_total left.getHeight right.getHeight with higher | higher
    · rw [max_eq_right higher]
      have smaller : Nat.fib (right.getHeight.toNat + 1) ≤ Nat.fib (left.getHeight.toNat + 2) :=
        Nat.fib_mono (by omega)
      omega
    · rw [max_eq_left higher]
      have smaller : Nat.fib (left.getHeight.toNat + 1) ≤ Nat.fib (right.getHeight.toNat + 2) :=
        Nat.fib_mono (by omega)
      omega

end AVLNode

/-! ### Runs -/

namespace AVLTree

variable {K V : Type} {comp : K → K → Bool}

/-- The invariant of the container. -/
structure Valid (comp : K → K → Bool) (tree : AVLTree K V) : Prop where
  ordered : tree.root.Ordered comp
  heights : tree.root.Heighted
  balanced : tree.root.Balanced
  size : tree.size = tree.root.nodeCount

theorem Valid.empty : (empty : AVLTree K V).Valid comp := ⟨trivial, trivial, trivial, rfl⟩

theorem valid_iff [IsTrans K fun a b => comp a b = true] {tree : AVLTree K V} :
    tree.Valid comp ↔ tree.root.Shaped ∧ SortedEntries.Sorted comp tree.root.entries ∧
      tree.size = tree.root.entries.length := by
  rw [← AVLNode.ordered_iff, ← AVLNode.nodeCount_eq]
  exact ⟨fun valid => ⟨⟨valid.heights, valid.balanced⟩, valid.ordered, valid.size⟩,
    fun ⟨shaped, ordered, size⟩ => ⟨ordered, shaped.heights, shaped.balanced, size⟩⟩

/-- Logarithmic height. -/
theorem Valid.fib_le {tree : AVLTree K V} (valid : tree.Valid comp) :
    Nat.fib (tree.height.toNat + 2) - 1 ≤ tree.size := by
  have shaped : tree.root.Shaped := ⟨valid.heights, valid.balanced⟩
  rw [valid.size]
  exact Nat.sub_le_of_le_add shaped.fib_le

variable [IsStrictWeakOrder K fun a b => comp a b = true]

theorem Valid.insert_spec {tree : AVLTree K V} (valid : tree.Valid comp) (key : K) (value : V) :
    ∃ later, tree.insert comp key value =
        some (!SortedEntries.present comp key tree.root.entries, later) ∧
      later.Valid comp ∧
      later.root.entries = SortedEntries.insert comp key value tree.root.entries := by
  obtain ⟨shaped, sorted, size⟩ := valid_iff.mp valid
  obtain ⟨root, call, inserted⟩ := AVLNode.insertNode_spec key value shaped sorted
  refine ⟨⟨root, if !SortedEntries.present comp key tree.root.entries then tree.size + 1
    else tree.size⟩, ?_, valid_iff.mpr ⟨inserted.shaped, ?_, ?_⟩, inserted.entries⟩
  · rw [insert, call]
    rfl
  · rw [inserted.entries]
    exact SortedEntries.sorted_insert sorted key value
  · rw [inserted.entries, SortedEntries.length_insert, size]
    cases SortedEntries.present comp key tree.root.entries <;> rfl

theorem Valid.remove_spec {tree : AVLTree K V} (valid : tree.Valid comp) (key : K) :
    ∃ later, tree.remove comp key =
        some (SortedEntries.present comp key tree.root.entries, later) ∧
      later.Valid comp ∧
      later.root.entries = SortedEntries.erase comp key tree.root.entries := by
  obtain ⟨shaped, sorted, size⟩ := valid_iff.mp valid
  obtain ⟨root, call, removed⟩ := AVLNode.removeNode_spec shaped sorted key
  refine ⟨⟨root, if SortedEntries.present comp key tree.root.entries then tree.size - 1
    else tree.size⟩, ?_, valid_iff.mpr ⟨removed.shaped, ?_, ?_⟩, removed.entries⟩
  · rw [remove, call]
    rfl
  · rw [removed.entries]
    exact SortedEntries.sorted_erase sorted key
  -- The counter goes down exactly when an entry went.
  · have length := @SortedEntries.length_erase _ _ comp key tree.root.entries
    rw [removed.entries]
    dsimp only
    split
    next listed =>
      rw [if_pos listed] at length
      omega
    next unlisted =>
      rw [if_neg unlisted] at length
      omega

/-- No call follows a null pointer, and every call keeps the invariant. -/
theorem next_valid {tree : AVLTree K V} (valid : tree.Valid comp) (op : TreeOp K V) :
    ∃ later, tree.next comp op = some later ∧ later.Valid comp := by
  cases op with
  | insert key value =>
    obtain ⟨later, call, validLater, -⟩ := valid.insert_spec key value
    refine ⟨later, ?_, validLater⟩
    rw [next, call]
    rfl
  | remove key =>
    obtain ⟨later, call, validLater, -⟩ := valid.remove_spec key
    refine ⟨later, ?_, validLater⟩
    rw [next, call]
    rfl
  | clear => exact ⟨empty, rfl, .empty⟩

variable (comp) in
theorem run_reaches (ops : List (TreeOp K V)) :
    ∃ tree, run comp ops = some tree ∧ tree.Valid comp :=
  foldlM_invariant (next comp) (fun _ => True)
    (fun _ op valid _ => next_valid valid op) .empty fun op (_ : op ∈ ops) => trivial

/-- **The shape of the tree.** Under every strict weak order, every sequence of calls on a new
tree succeeds and leaves a strict search tree with correct heights, balanced everywhere, whose
size is its number of nodes and whose height is logarithmic in it. -/
theorem run_valid (ops : List (TreeOp K V)) :
    ∃ tree, run comp ops = some tree ∧ tree.Valid comp ∧
      Nat.fib (tree.height.toNat + 2) - 1 ≤ tree.size := by
  obtain ⟨tree, reached, valid⟩ := run_reaches comp ops
  exact ⟨tree, reached, valid, valid.fib_le⟩

instance : IsStrictWeakOrder Nat fun a b => decide (a < b) = true where
  irrefl := by simp
  trans := by
    simp only [decide_eq_true_eq]
    exact fun _ _ _ => lt_trans
  incomp_trans := by
    simp only [decide_eq_true_eq]
    omega

theorem run_valid_three :
    ∃ tree : AVLTree Nat Nat,
      run (fun a b => decide (a < b)) [.insert 1 10, .insert 2 20, .insert 3 30] = some tree ∧
        tree.Valid (fun a b => decide (a < b)) ∧
        Nat.fib (tree.height.toNat + 2) - 1 ≤ tree.size :=
  run_valid [.insert 1 10, .insert 2 20, .insert 3 30]

end AVLTree
end ScuffedRedis
