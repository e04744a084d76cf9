import ScuffedRedis.Data.AvlQueries
import ScuffedRedis.Data.AvlRenaming
import ScuffedRedis.Data.SortedSet
import ScuffedRedis.Foundation.FiniteMap

/-!
# The sorted set and its scores

Entries whose scores are numbers are ordered by score and member. A set of such entries is a
renamed tree over this order, and the entries of the tree are the bindings of the map of scores.
-/
namespace ScuffedRedis

open Foundation

instance uint8LinearOrder : LinearOrder UInt8 where
  le_refl _ := UInt8.le_refl _
  le_trans _ _ _ := UInt8.le_trans
  le_antisymm _ _ := UInt8.le_antisymm
  le_total := UInt8.le_total
  lt_iff_le_not_ge a b := by
    rw [UInt8.not_le]
    exact ⟨fun less => ⟨UInt8.le_of_lt less, less⟩, And.right⟩
  toDecidableLE := inferInstance

/-! ### The order -/

/-- An entry whose score is not NaN. -/
abbrev OrderedEntry := { entry : SortedSetEntry // entry.score.isNaN = false }

namespace OrderedEntry

def less (entry other : OrderedEntry) : Bool := entry.1.less other.1

/-- Score first, then member. -/
def rank (entry : OrderedEntry) : ℤ ×ₗ Bytes := toLex (entry.1.score.ordinal, entry.1.member)

theorem less_iff (entry other : OrderedEntry) :
    entry.less other = true ↔ entry.rank < other.rank := by
  rw [less, SortedSetEntry.less, rank, rank, Prod.Lex.toLex_lt_toLex]
  by_cases same : entry.1.score.ordinal = other.1.score.ordinal
  · have alike : ¬ entry.1.score.differs other.1.score = true := by
      rw [Binary64.differs_iff entry.2 other.2]
      exact not_not_intro same
    rw [if_neg alike, decide_eq_true_eq]
    simp [same]
  · rw [if_pos ((Binary64.differs_iff entry.2 other.2).mpr same),
      Binary64.less_iff entry.2 other.2]
    simp [same]

instance : IsStrictWeakOrder OrderedEntry fun a b => less a b = true :=
  SortedEntries.isStrictWeakOrder_of_rank rank less_iff

theorem member_of_equivalent {entry other : OrderedEntry}
    (same : SortedEntries.equivalent less entry other = true) :
    entry.1.member = other.1.member := by
  have ranks := (SortedEntries.equivalent_iff_rank less_iff entry other).mp same
  exact congrArg (fun rank => (ofLex rank).2) ranks

end OrderedEntry

namespace SortedSet

/-! ### Coupling -/

/-- The map of scores that a list of tree entries stands for. -/
abbrev Lists (entries : List (SortedSetEntry × Bool)) (scores : Finmap fun _ : Bytes => Binary64) :
    Prop :=
  Represents (fun entry => entry.1.member) (fun entry => entry.1.score) entries scores

/-- The same for entries of the order. -/
abbrev ListsOrdered (entries : List (OrderedEntry × Bool))
    (scores : Finmap fun _ : Bytes => Binary64) : Prop :=
  Represents (fun entry => entry.1.1.member) (fun entry => entry.1.1.score) entries scores

/-- The tree is one over the order, its entries are the bindings of the scores, and the counter
counts them. -/
structure Coupled (set : SortedSet) (tree : AVLTree OrderedEntry Bool) : Prop where
  renamed : set.tree = tree.rename Subtype.val
  valid : tree.Valid OrderedEntry.less
  listed : ListsOrdered tree.root.entries set.scores
  size : set.size = tree.root.entries.length

theorem Coupled.empty : Coupled empty .empty := ⟨rfl, .empty, .nil, rfl⟩

/-- The tree compares renamed entries as the order does. -/
theorem less_agrees (entry other : OrderedEntry) :
    SortedSetEntry.less entry.1 other.1 = OrderedEntry.less entry other := rfl

section Listed

variable {tree : AVLTree OrderedEntry Bool} {scores : Finmap fun _ : Bytes => Binary64}
  (valid : tree.Valid OrderedEntry.less) (listed : ListsOrdered tree.root.entries scores)
  {member : Bytes}

include valid listed

/-- Inserting an entry of an unlisted member. -/
theorem insert_new (unlisted : scores.lookup member = none) {score : Binary64}
    (ordered : score.isNaN = false) :
    ∃ later : AVLTree OrderedEntry Bool,
      (tree.rename Subtype.val).insert SortedSetEntry.less ⟨score, member⟩ true =
          some (true, later.rename Subtype.val) ∧
        later.Valid OrderedEntry.less ∧
        ListsOrdered later.root.entries (scores.insert member score) ∧
        later.root.entries.length = tree.root.entries.length + 1 := by
  -- Equivalent entries have the same member, so an unlisted member is new to the tree as well.
  have fresh : ∀ other ∈ tree.root.entries, other.1.1.member ≠ member := by
    intro other present same
    have bound := listed.lookup_key present
    rw [same, unlisted] at bound
    cases bound
  have absent : SortedEntries.present OrderedEntry.less ⟨⟨score, member⟩, ordered⟩
      tree.root.entries = false := by
    rw [SortedEntries.present_eq_any (AVLTree.valid_iff.mp valid).2.1, List.any_eq_false]
    intro other present same
    exact fresh other present (OrderedEntry.member_of_equivalent same).symm
  obtain ⟨later, call, validLater, entries⟩ :=
    valid.insert_spec ⟨⟨score, member⟩, ordered⟩ true
  have renamed := AVLTree.insert_rename less_agrees tree ⟨⟨score, member⟩, ordered⟩ true
  have reordered := SortedEntries.insert_perm absent true
  rw [call, absent] at renamed
  refine ⟨later, renamed, validLater, ?_, ?_⟩
  · rw [entries]
    exact (listed.insert_new (⟨⟨score, member⟩, ordered⟩, true) fresh).perm reordered.symm
  · rw [entries, reordered.length_eq, List.length_cons]

/-- Removing the entry of a listed member. -/
theorem remove_listed {score : Binary64} (bound : scores.lookup member = some score) :
    ∃ later : AVLTree OrderedEntry Bool,
      (tree.rename Subtype.val).remove SortedSetEntry.less ⟨score, member⟩ =
          some (true, later.rename Subtype.val) ∧
        later.Valid OrderedEntry.less ∧
        ListsOrdered later.root.entries (scores.erase member) ∧
        later.root.entries.length + 1 = tree.root.entries.length := by
  -- The removal asks for score and member, and this is the entry that has both.
  obtain ⟨entry, present, rfl, rfl⟩ := (listed.lookup member score).mp bound
  have found : SortedEntries.present OrderedEntry.less entry.1 tree.root.entries = true := by
    rw [SortedEntries.present_eq_any (AVLTree.valid_iff.mp valid).2.1, List.any_eq_true]
    exact ⟨entry, present, (SortedEntries.equivalent_iff_rank OrderedEntry.less_iff _ _).mpr rfl⟩
  obtain ⟨later, call, validLater, entries⟩ := valid.remove_spec entry.1
  have renamed := AVLTree.remove_rename less_agrees tree entry.1
  obtain ⟨removed, same, reordered⟩ := SortedEntries.erase_perm found
  rw [call, found] at renamed
  refine ⟨later, renamed, validLater, ?_, ?_⟩
  · rw [entries, OrderedEntry.member_of_equivalent same]
    exact (listed.perm reordered).erase
  · rw [entries, reordered.length_eq, List.length_cons]

end Listed

/-! ### Steps -/

theorem next_zadd {set later : SortedSet} {member : Bytes} {score : Binary64} {answer : Int32}
    (call : set.zadd member score = some (answer, later)) :
    set.next (.zadd member score) = some later := by
  rw [next, call]
  rfl

theorem next_zrem {set later : SortedSet} {member : Bytes} {answer : Int32}
    (call : set.zrem member = some (answer, later)) : set.next (.zrem member) = some later := by
  rw [next, call]
  rfl

section Steps

variable {set : SortedSet} {tree : AVLTree OrderedEntry Bool} (coupled : Coupled set tree)
  (member : Bytes)

include coupled

theorem zadd_spec {score : Binary64} (ordered : score.isNaN = false) :
    ∃ later laterTree, set.zadd member score =
        some (if (set.scores.lookup member).isSome then 0 else 1, later) ∧
      Coupled later laterTree ∧ later.scores = set.scores.insert member score := by
  rw [zadd, coupled.renamed]
  cases known : set.scores.lookup member with
  | none =>
    obtain ⟨later, call, valid, listed, size⟩ :=
      insert_new coupled.valid coupled.listed known ordered
    refine ⟨⟨later.rename Subtype.val, set.scores.insert member score, set.size + 1⟩, later, ?_,
      ⟨rfl, valid, listed, ?_⟩, rfl⟩
    · simp only [call, bind, Option.bind_some, pure]
      rfl
    · rw [size, coupled.size]
  | some oldScore =>
    -- A listed member is removed with its old score and inserted with the new one.
    obtain ⟨without, removal, validWithout, listedWithout, sizeWithout⟩ :=
      remove_listed coupled.valid coupled.listed known
    obtain ⟨later, insertion, valid, listed, size⟩ :=
      insert_new validWithout listedWithout (Finmap.lookup_erase _ _) ordered
    rw [insert_erase_self] at listed
    refine ⟨⟨later.rename Subtype.val, set.scores.insert member score, set.size⟩, later, ?_,
      ⟨rfl, valid, listed, ?_⟩, rfl⟩
    · simp only [removal, insertion, bind, Option.bind_some, pure]
      rfl
    · rw [size, sizeWithout, coupled.size]

theorem zrem_spec :
    ∃ later laterTree, set.zrem member =
        some (if (set.scores.lookup member).isSome then 1 else 0, later) ∧
      Coupled later laterTree ∧ later.scores = set.scores.erase member := by
  rw [zrem]
  cases known : set.scores.lookup member with
  | none =>
    exact ⟨set, tree, rfl, coupled, (erase_of_lookup_eq_none known).symm⟩
  | some score =>
    obtain ⟨later, call, valid, listed, size⟩ := remove_listed coupled.valid coupled.listed known
    refine ⟨⟨later.rename Subtype.val, set.scores.erase member, set.size - 1⟩, later, ?_,
      ⟨rfl, valid, listed, ?_⟩, rfl⟩
    · rw [coupled.renamed]
      simp only [call, bind, Option.bind_some, pure]
      rfl
    · change set.size - 1 = later.root.entries.length
      rw [coupled.size, ← size, Nat.add_sub_cancel]

end Steps

/-! ### The containers in step -/

theorem Coupled.inorder_eq {set : SortedSet} {tree : AVLTree OrderedEntry Bool}
    (coupled : Coupled set tree) :
    set.tree.inorder = tree.root.entries.map (Prod.map Subtype.val id) := by
  rw [coupled.renamed, AVLTree.inorder_rename, AVLTree.inorder_eq]

theorem Coupled.lists {set : SortedSet} {tree : AVLTree OrderedEntry Bool}
    (coupled : Coupled set tree) : Lists set.tree.inorder set.scores := by
  rw [coupled.inorder_eq]
  exact (Represents.map_iff _).mpr coupled.listed

end SortedSet
end ScuffedRedis
