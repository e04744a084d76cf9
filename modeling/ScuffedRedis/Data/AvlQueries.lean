import ScuffedRedis.Data.AvlInvariant
import ScuffedRedis.Foundation.SignedArithmetic

/-!
# Queries of the AVL tree

Each query follows its own pruned path. The subtrees it leaves out hold no entry that it could
answer with, so every query gives what a scan of the sorted list of entries gives.
-/
namespace ScuffedRedis

open Foundation

namespace AVLNode

variable {K V : Type} {comp : K → K → Bool} {key : K} {left right : List (K × V)}

/-! ### Traversal and size -/

theorem inorderTraversal_eq (tree : AVLNode K V) (result : List (K × V)) :
    tree.inorderTraversal result = result ++ tree.entries := by
  induction tree generalizing result with
  | nullptr => exact (List.append_nil result).symm
  | node key value height left right ihLeft ihRight =>
    rw [inorderTraversal, ihLeft, ihRight, entries, List.append_assoc, List.append_assoc]
    rfl

/-- Below the bound the count in `int` does not wrap around. -/
theorem getSubtreeSize_eq {tree : AVLNode K V} (small : tree.nodeCount < 2 ^ 31) :
    tree.getSubtreeSize.toInt = tree.nodeCount := by
  induction tree with
  | nullptr => rfl
  | node key value height left right ihLeft ihRight =>
    rw [nodeCount] at small ⊢
    have sizeLeft := ihLeft (by omega)
    have sizeRight := ihRight (by omega)
    have first : (1 + left.getSubtreeSize).toInt = 1 + left.nodeCount :=
      toInt32_add Int32.toInt_one sizeLeft (by omega) (by omega)
    rw [getSubtreeSize, toInt32_add first sizeRight (by omega) (by omega)]
    omega

/-! ### Scans of a list -/

/-- Neither below the start nor above the end. -/
def inRange (comp : K → K → Bool) (start stop : K) (entry : K × V) : Bool :=
  !comp entry.1 start && !comp stop entry.1

/-- The index of the key in a list of entries, and -1 for a key that is not listed. -/
def indexOf (comp : K → K → Bool) (key : K) (entries : List (K × V)) : Int :=
  match entries.findIdx? fun entry => SortedEntries.equivalent comp key entry.1 with
  | some index => index
  | none => -1

theorem neg_one_le_indexOf (key : K) (entries : List (K × V)) :
    -1 ≤ indexOf comp key entries := by
  rw [indexOf]
  split <;> omega

theorem indexOf_lt (key : K) (entries : List (K × V)) :
    indexOf comp key entries < entries.length := by
  rw [indexOf]
  split
  next index found =>
    have := (List.findIdx?_eq_some_iff_findIdx_eq.mp found).1
    omega
  next => omega

section Absent

variable (absent : ∀ entry ∈ left, SortedEntries.equivalent comp key entry.1 = false)

include absent

theorem find?_eq_none_of_absent :
    left.find? (fun entry => SortedEntries.equivalent comp key entry.1) = none :=
  List.find?_eq_none.mpr fun entry listed => Bool.eq_false_iff.mp (absent entry listed)

theorem indexOf_append_of_absent :
    indexOf comp key (left ++ right) =
      if indexOf comp key right = -1 then -1 else left.length + indexOf comp key right := by
  have unlisted : left.findIdx? (fun entry => SortedEntries.equivalent comp key entry.1) = none :=
    List.findIdx?_eq_none_iff.mpr absent
  rw [indexOf, indexOf, List.findIdx?_append, unlisted, Option.none_or]
  cases right.findIdx? fun entry => SortedEntries.equivalent comp key entry.1 with
  | none => rfl
  | some index =>
    simp only [Option.map_some]
    rw [if_neg (by omega), Nat.cast_add, Int.add_comm]

end Absent

theorem indexOf_append_of_absent_right
    (absent : ∀ entry ∈ right, SortedEntries.equivalent comp key entry.1 = false) :
    indexOf comp key (left ++ right) = indexOf comp key left := by
  have unlisted : right.findIdx? (fun entry => SortedEntries.equivalent comp key entry.1) = none :=
    List.findIdx?_eq_none_iff.mpr absent
  rw [indexOf, indexOf, List.findIdx?_append, unlisted, Option.map_none, Option.or_none]

/-- The index of a listed key is that of an entry with an equivalent key. -/
theorem indexOf_of_listed {entries : List (K × V)} {entry : K × V} (listed : entry ∈ entries)
    (found : SortedEntries.equivalent comp key entry.1 = true) :
    ∃ (index : Nat) (other : K × V), entries[index]? = some other ∧
      SortedEntries.equivalent comp key other.1 = true ∧ indexOf comp key entries = index := by
  rw [indexOf]
  cases sought : entries.findIdx? fun entry => SortedEntries.equivalent comp key entry.1 with
  | none =>
    have absent := List.findIdx?_eq_none_iff.mp sought entry listed
    exact absurd found (Bool.eq_false_iff.mp absent)
  | some index =>
    obtain ⟨bound, same, -⟩ := List.findIdx?_eq_some_iff_getElem.mp sought
    exact ⟨index, entries[index], List.getElem?_eq_getElem bound, same, rfl⟩

theorem indexOf_cons {entry : K × V}
    (found : SortedEntries.equivalent comp key entry.1 = true) :
    indexOf comp key (entry :: right) = 0 := by
  rw [indexOf, List.findIdx?_cons, if_pos found]
  rfl

/-! ### Paths -/

section Ordered

variable [IsStrictWeakOrder K fun a b => comp a b = true] {nodeKey : K} {nodeValue : V}

/-- A key below that of the node is neither at the node nor to the right of it. -/
theorem absent_of_below (below : comp key nodeKey = true)
    (above : ∀ entry ∈ right, comp nodeKey entry.1 = true) :
    ∀ entry ∈ (nodeKey, nodeValue) :: right, SortedEntries.equivalent comp key entry.1 = false := by
  intro entry listed
  apply SortedEntries.not_equivalent_of_below
  rcases List.mem_cons.mp listed with rfl | later
  · exact below
  · exact trans_of (fun a b => comp a b = true) below (above entry later)

/-- A key that is not below that of the node is not to the left of it. -/
theorem absent_of_not_below (notBelow : ¬ comp key nodeKey = true)
    (under : ∀ entry ∈ left, comp entry.1 nodeKey = true) :
    ∀ entry ∈ left, SortedEntries.equivalent comp key entry.1 = false := by
  intro entry listed
  apply SortedEntries.not_equivalent_of_above
  by_cases greater : comp nodeKey key = true
  · exact trans_of (fun a b => comp a b = true) (under entry listed) greater
  · exact SortedEntries.below_of_equivalent (under entry listed) notBelow greater

/-- The entry of the node that a search ends at. -/
def topEntry : AVLNode K V → Option (K × V)
  | nullptr => none
  | node key value _ _ _ => some (key, value)

theorem findNode_spec {tree : AVLNode K V} (ordered : tree.Ordered comp) (key : K) :
    (tree.findNode comp key).topEntry =
      tree.entries.find? fun entry => SortedEntries.equivalent comp key entry.1 := by
  induction tree with
  | nullptr => rfl
  | node nodeKey nodeValue height left right ihLeft ihRight =>
    obtain ⟨orderedLeft, orderedRight, under, above⟩ := ordered
    rw [findNode, entries, List.find?_append]
    -- The half that the search leaves out has no equivalent key.
    by_cases below : comp key nodeKey = true
    · rw [if_pos below, find?_eq_none_of_absent (absent_of_below below above), Option.or_none]
      exact ihLeft orderedLeft
    · rw [if_neg below, find?_eq_none_of_absent (absent_of_not_below below under), Option.none_or]
      by_cases greater : comp nodeKey key = true
      · have other : SortedEntries.equivalent comp key nodeKey = false :=
          SortedEntries.not_equivalent_of_above greater
        simp only [if_pos greater, List.find?_cons, other]
        exact ihRight orderedRight
      · have same : SortedEntries.equivalent comp key nodeKey = true :=
          SortedEntries.equivalent_of_not_below below greater
        simp only [if_neg greater, List.find?_cons, same]
        rfl

theorem rangeQuery_eq {tree : AVLNode K V} (ordered : tree.Ordered comp) (start stop : K)
    (result : List (K × V)) :
    tree.rangeQuery comp start stop result =
      result ++ tree.entries.filter (inRange comp start stop) := by
  induction tree generalizing result with
  | nullptr => exact (List.append_nil result).symm
  | node key value height left right ihLeft ihRight =>
    obtain ⟨orderedLeft, orderedRight, under, above⟩ := ordered
    rw [rangeQuery, entries, List.filter_append]
    by_cases inside : (!comp key start && !comp stop key) = true
    · have kept : inRange comp start stop (key, value) = true := inside
      rw [if_pos inside, ihLeft orderedLeft, ihRight orderedRight, List.filter_cons_of_pos kept,
        List.append_assoc, List.append_assoc]
      rfl
    · have dropped : ¬ inRange comp start stop (key, value) = true := inside
      rw [if_neg inside, List.filter_cons_of_neg dropped]
      by_cases early : comp key start = true
      · -- The left subtree is below the start as well.
        have nothing : left.entries.filter (inRange comp start stop) = [] := by
          refine List.filter_eq_nil_iff.mpr fun entry listed => ?_
          have lower := trans_of (fun a b => comp a b = true) (under entry listed) early
          simp [inRange, lower]
        rw [if_pos early, nothing, List.nil_append]
        exact ihRight orderedRight result
      · -- The node is above the end, and so is the right subtree.
        have late : comp stop key = true := by simpa [early] using inside
        have nothing : right.entries.filter (inRange comp start stop) = [] := by
          refine List.filter_eq_nil_iff.mpr fun entry listed => ?_
          have higher := trans_of (fun a b => comp a b = true) late (above entry listed)
          simp [inRange, higher]
        rw [if_neg early, nothing, List.append_nil]
        exact ihLeft orderedLeft result

theorem getRank_spec {tree : AVLNode K V} (ordered : tree.Ordered comp)
    (small : tree.nodeCount < 2 ^ 31) (key : K) :
    (tree.getRank comp key).toInt = indexOf comp key tree.entries := by
  induction tree with
  | nullptr => rfl
  | node nodeKey nodeValue height left right ihLeft ihRight =>
    obtain ⟨orderedLeft, orderedRight, under, above⟩ := ordered
    rw [nodeCount] at small
    -- The sizes and ranks of subtrees fit in 32 bits, so no addition wraps.
    have sizeLeft : left.getSubtreeSize.toInt = left.nodeCount := getSubtreeSize_eq (by omega)
    rw [getRank, entries]
    by_cases below : comp key nodeKey = true
    · rw [if_pos below, indexOf_append_of_absent_right (absent_of_below below above)]
      exact ihLeft orderedLeft (by omega)
    · have absentLeft := absent_of_not_below below under
      rw [if_neg below]
      by_cases greater : comp nodeKey key = true
      · -- Everything up to the node comes before the rank in the right subtree.
        have absent : ∀ entry ∈ left.entries ++ [(nodeKey, nodeValue)],
            SortedEntries.equivalent comp key entry.1 = false := by
          intro entry listed
          rcases List.mem_append.mp listed with former | last
          · exact absentLeft entry former
          · rw [List.mem_singleton.mp last]
            exact SortedEntries.not_equivalent_of_above greater
        have whole : left.entries ++ (nodeKey, nodeValue) :: right.entries =
            (left.entries ++ [(nodeKey, nodeValue)]) ++ right.entries := by simp
        have rankRight := ihRight orderedRight (by omega)
        have lower : -1 ≤ indexOf comp key right.entries := neg_one_le_indexOf key _
        have upper : indexOf comp key right.entries < right.entries.length := indexOf_lt key _
        rw [if_pos greater, whole, indexOf_append_of_absent absent]
        rw [← nodeCount_eq] at upper
        by_cases missing : indexOf comp key right.entries = -1
        · have rank : right.getRank comp key = -1 := Int32.toInt_inj.mp (rankRight.trans missing)
          simp only [if_pos missing, if_pos rank]
          rfl
        · have rank : ¬ right.getRank comp key = -1 := by
            intro rank
            rw [rank] at rankRight
            exact missing rankRight.symm
          have first : (left.getSubtreeSize + 1).toInt = left.nodeCount + 1 :=
            toInt32_add sizeLeft Int32.toInt_one (by omega) (by omega)
          simp only [if_neg missing, if_neg rank]
          rw [toInt32_add first rankRight (by omega) (by omega), List.length_append, ← nodeCount_eq]
          rfl
      · have same := SortedEntries.equivalent_of_not_below below greater
        rw [if_neg greater, indexOf_append_of_absent absentLeft, indexOf_cons same,
          if_neg (by omega), sizeLeft, nodeCount_eq, Int.add_zero]

end Ordered
end AVLNode

/-! ### The calls -/

namespace AVLTree

variable {K V : Type} {comp : K → K → Bool}

/-- What each call answers and leaves behind when the tree lists these entries. -/
structure Refines (comp : K → K → Bool) (tree : AVLTree K V) (entries : List (K × V)) : Prop where
  sorted : entries.Pairwise fun first second => comp first.1 second.1 = true
  inorder : tree.inorder = entries
  size : tree.size = entries.length
  /-- A listed key gets the new value, and an unlisted one its place in the order. -/
  insert : ∀ key value, ∃ later,
    tree.insert comp key value =
        some (!entries.any fun entry => SortedEntries.equivalent comp key entry.1, later) ∧
      later.inorder =
        if (entries.any fun entry => SortedEntries.equivalent comp key entry.1) = true then
          entries.map fun entry =>
            if SortedEntries.equivalent comp key entry.1 = true then (entry.1, value) else entry
        else
          (entries.filter fun entry => comp entry.1 key) ++
            (key, value) :: entries.filter fun entry => comp key entry.1
  remove : ∀ key, ∃ later,
    tree.remove comp key =
        some (entries.any fun entry => SortedEntries.equivalent comp key entry.1, later) ∧
      later.inorder = entries.filter fun entry => !SortedEntries.equivalent comp key entry.1
  find : ∀ key, tree.find comp key =
    (entries.find? fun entry => SortedEntries.equivalent comp key entry.1).map Prod.snd
  contains : ∀ key, tree.contains comp key =
    entries.any fun entry => SortedEntries.equivalent comp key entry.1
  range : ∀ start stop, tree.range comp start stop =
    entries.filter fun entry => !comp entry.1 start && !comp stop entry.1
  /-- The index in the list, and -1 for an unlisted key. -/
  rank : tree.size < 2 ^ 31 → ∀ key, (tree.rank comp key).toInt =
    match entries.findIdx? fun entry => SortedEntries.equivalent comp key entry.1 with
    | some index => (index : Int)
    | none => -1

theorem inorder_eq (tree : AVLTree K V) : tree.inorder = tree.root.entries :=
  (AVLNode.inorderTraversal_eq tree.root []).trans (List.nil_append _)

variable [IsStrictWeakOrder K fun a b => comp a b = true] {tree : AVLTree K V}

theorem Valid.find_spec (valid : tree.Valid comp) (key : K) :
    tree.find comp key = (tree.root.entries.find? fun entry =>
      SortedEntries.equivalent comp key entry.1).map Prod.snd := by
  rw [← AVLNode.findNode_spec valid.ordered, find]
  cases tree.root.findNode comp key <;> rfl

theorem Valid.contains_spec (valid : tree.Valid comp) (key : K) :
    tree.contains comp key =
      tree.root.entries.any fun entry => SortedEntries.equivalent comp key entry.1 := by
  rw [← List.isSome_find?, ← AVLNode.findNode_spec valid.ordered, contains]
  cases tree.root.findNode comp key <;> rfl

theorem Valid.refines (valid : tree.Valid comp) : tree.Refines comp tree.root.entries := by
  obtain ⟨shaped, sorted, size⟩ := valid_iff.mp valid
  refine ⟨sorted, inorder_eq tree, size, fun key value => ?_, fun key => ?_, valid.find_spec,
    valid.contains_spec, fun start stop => ?_, fun small key => ?_⟩
  · obtain ⟨later, call, -, entries⟩ := valid.insert_spec key value
    rw [SortedEntries.present_eq_any sorted] at call
    refine ⟨later, call, ?_⟩
    rw [inorder_eq, entries]
    -- A listed key keeps its place, and an unlisted one goes between lower and higher keys.
    split
    next listed =>
      rw [← SortedEntries.present_eq_any sorted] at listed
      exact SortedEntries.insert_of_present sorted listed value
    next unlisted =>
      rw [← SortedEntries.present_eq_any sorted] at unlisted
      exact SortedEntries.insert_of_absent sorted (Bool.eq_false_iff.mpr unlisted) value
  · obtain ⟨later, call, -, entries⟩ := valid.remove_spec key
    rw [SortedEntries.present_eq_any sorted] at call
    refine ⟨later, call, ?_⟩
    rw [inorder_eq, entries, SortedEntries.erase_eq_filter sorted]
  · exact (AVLNode.rangeQuery_eq valid.ordered start stop []).trans (List.nil_append _)
  · rw [valid.size] at small
    exact AVLNode.getRank_spec valid.ordered small key

/-- **Refinement of a sorted association list.** Under every strict weak order, every sequence of
calls on a new tree succeeds, and in the tree it leaves every call agrees with the sorted list
that the traversal gives. -/
theorem run_refines (ops : List (TreeOp K V)) :
    ∃ tree, run comp ops = some tree ∧ tree.Refines comp tree.inorder := by
  obtain ⟨tree, reached, valid⟩ := run_reaches comp ops
  refine ⟨tree, reached, ?_⟩
  rw [inorder_eq]
  exact valid.refines

theorem run_refines_three :
    ∃ tree : AVLTree Nat Nat,
      run (fun a b => decide (a < b)) [.insert 1 10, .insert 2 20, .remove 1] = some tree ∧
        tree.Refines (fun a b => decide (a < b)) tree.inorder :=
  run_refines [.insert 1 10, .insert 2 20, .remove 1]

end AVLTree
end ScuffedRedis
