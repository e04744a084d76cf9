import ScuffedRedis.Data.SortedSetRanks
import ScuffedRedis.Protocol.ParserLaws

/-!
# Bulk updates of the sorted set

`zadd_multi` and `zrem_multi` add up the answers of single calls in an `int`. The calls change the
scores as one pass over the list does, and the sum is the change in the number of members, for as
long as the `int` can hold it.
-/
namespace ScuffedRedis

open Foundation

namespace SortedSet

/-- The number of distinct members of a list that the set lacks. -/
def absentAmong (set : SortedSet) (members : List Bytes) : Nat :=
  (members.toFinset.filter fun member => set.zscore member = none).card

/-- The number of distinct members of a list that the set has. -/
def presentAmong (set : SortedSet) (members : List Bytes) : Nat :=
  (members.toFinset.filter fun member => set.zscore member ≠ none).card

/-- A bulk call answers `count`, the change in the number of members, and then the queries go by
`scoreOf`. -/
def Counts (set : SortedSet) (outcome : Option (Int32 × SortedSet))
    (scoreOf : Bytes → Option Binary64) (count : Nat) : Prop :=
  ∃ answer later sorted, outcome = some (answer, later) ∧ later.Agrees scoreOf sorted ∧
    answer.toInt = count ∧ answer.toInt = |(later.zcard : ℤ) - set.zcard|

/-! ### Numbers of members -/

theorem Coupled.size_eq {set : SortedSet} {tree : AVLTree OrderedEntry Bool}
    (coupled : Coupled set tree) : set.size = set.scores.keys.card := by
  rw [coupled.size, coupled.listed.card_keys]

theorem absentAmong_eq (set : SortedSet) (members : List Bytes) :
    set.absentAmong members = (members.toFinset \ set.scores.keys).card := by
  rw [absentAmong]
  congr 1
  ext member
  rw [Finset.mem_filter, Finset.mem_sdiff, Finmap.mem_keys, zscore, Finmap.lookup_eq_none]

theorem presentAmong_eq (set : SortedSet) (members : List Bytes) :
    set.presentAmong members = (members.toFinset ∩ set.scores.keys).card := by
  rw [presentAmong]
  congr 1
  ext member
  rw [Finset.mem_filter, Finset.mem_inter, Finmap.mem_keys, zscore, ne_eq,
    Finmap.lookup_eq_none, not_not]

/-! ### The loop -/

/-- A call adds or removes by `sign` what it answers, and it changes the scores by `change`. -/
def Steps {α : Type} (call : SortedSet → α → Option (Int32 × SortedSet)) (sign : ℤ)
    (change : (Finmap fun _ : Bytes => Binary64) → α → Finmap fun _ : Bytes => Binary64)
    (item : α) : Prop :=
  ∀ set tree, Coupled set tree → ∃ later laterTree,
    call set item = some (Int32.ofInt (sign * (later.size - set.size)), later) ∧
      Coupled later laterTree ∧ later.scores = change set.scores item

/-- The answers telescope: their sum is the whole change of the size. -/
theorem sumCalls_spec {α : Type} {call : SortedSet → α → Option (Int32 × SortedSet)} {sign : ℤ}
    {change : (Finmap fun _ : Bytes => Binary64) → α → Finmap fun _ : Bytes => Binary64}
    {items : List α} (steps : ∀ item ∈ items, Steps call sign change item) {set : SortedSet}
    {tree : AVLTree OrderedEntry Bool} (coupled : Coupled set tree) :
    ∃ later laterTree,
      sumCalls call items set = some (Int32.ofInt (sign * (later.size - set.size)), later) ∧
        Coupled later laterTree ∧ later.scores = items.foldl change set.scores := by
  have loop : ∀ (total : Int32), ∃ later laterTree,
      items.foldlM (addAnswer call) (total, set) =
        some (total + Int32.ofInt (sign * (later.size - set.size)), later) ∧
      Coupled later laterTree ∧ later.scores = items.foldl change set.scores := by
    induction items generalizing set tree with
    | nil => exact fun total => ⟨set, tree, by simp, coupled, rfl⟩
    | cons item rest ih =>
      intro total
      rw [List.forall_mem_cons] at steps
      obtain ⟨middle, middleTree, answered, coupledMiddle, scores⟩ := steps.1 set tree coupled
      obtain ⟨later, laterTree, loop, coupledLater, final⟩ := ih steps.2 coupledMiddle
        (total + Int32.ofInt (sign * (middle.size - set.size)))
      refine ⟨later, laterTree, ?_, coupledLater, ?_⟩
      · have sum : sign * ((middle.size : ℤ) - set.size) + sign * (later.size - middle.size) =
            sign * (later.size - set.size) := by ring
        rw [Int32.add_assoc, ← Int32.ofInt_add, sum] at loop
        simp only [List.foldlM_cons, addAnswer, answered, bind, Option.bind_some, pure]
        exact loop
      · rw [final, scores, List.foldl_cons]
  obtain ⟨later, laterTree, call, rest⟩ := loop 0
  rw [Int32.zero_add] at call
  exact ⟨later, laterTree, call, rest⟩

theorem zadd_steps {item : Bytes × Binary64} (ordered : item.2.isNaN = false) :
    Steps (fun set (member, score) => set.zadd member score) 1
      (fun scores item => scores.insert item.1 item.2) item := by
  intro set tree coupled
  obtain ⟨later, laterTree, call, coupledLater, scores⟩ := zadd_spec coupled item.1 ordered
  refine ⟨later, laterTree, ?_, coupledLater, scores⟩
  have grown := card_keys_insertAll set.scores [item]
  change (set.scores.insert item.1 item.2).keys.card = _ at grown
  rw [← scores, ← coupledLater.size_eq, ← coupled.size_eq] at grown
  change set.zadd item.1 item.2 = _
  rw [call]
  -- The set grows by one exactly if the member is new.
  cases known : set.scores.lookup item.1 with
  | none =>
    have absent : item.1 ∉ set.scores.keys := by
      rwa [Finmap.mem_keys, ← Finmap.lookup_eq_none]
    have added : {item.1} \ set.scores.keys = {item.1} := by
      rwa [Finset.sdiff_eq_self_iff_disjoint, Finset.disjoint_singleton_left]
    have one : later.size = 1 + set.size := by simpa [added] using grown
    simp [one]
  | some score =>
    have present : item.1 ∈ set.scores.keys := by
      rw [Finmap.mem_keys]
      exact Finmap.mem_of_lookup_eq_some known
    have added : {item.1} \ set.scores.keys = ∅ := by
      rwa [Finset.sdiff_eq_empty_iff_subset, Finset.singleton_subset_iff]
    have same : later.size = set.size := by simpa [added] using grown
    simp [same]

theorem zrem_steps (member : Bytes) :
    Steps zrem (-1) (fun scores member => scores.erase member) member := by
  intro set tree coupled
  obtain ⟨later, laterTree, call, coupledLater, scores⟩ := zrem_spec coupled member
  refine ⟨later, laterTree, ?_, coupledLater, scores⟩
  have shrunk := card_keys_eraseAll set.scores [member]
  change (set.scores.erase member).keys.card + _ = _ at shrunk
  rw [← scores, ← coupledLater.size_eq, ← coupled.size_eq] at shrunk
  rw [call]
  cases known : set.scores.lookup member with
  | none =>
    have absent : member ∉ set.scores.keys := by
      rwa [Finmap.mem_keys, ← Finmap.lookup_eq_none]
    have same : later.size = set.size := by simpa [absent] using shrunk
    simp [same]
  | some score =>
    have present : member ∈ set.scores.keys := by
      rw [Finmap.mem_keys]
      exact Finmap.mem_of_lookup_eq_some known
    have one : later.size + 1 = set.size := by simpa [present] using shrunk
    simp [← one]

/-! ### Bulk calls -/

theorem zaddMulti_spec {set : SortedSet} {tree : AVLTree OrderedEntry Bool}
    (coupled : Coupled set tree) {items : List (Bytes × Binary64)}
    (ordered : ∀ item ∈ items, item.2.isNaN = false) :
    ∃ later laterTree,
      set.zaddMulti items =
          some (Int32.ofInt (set.absentAmong (items.map Prod.fst)), later) ∧
        Coupled later laterTree ∧ later.scores = insertAll set.scores items ∧
        later.size = set.absentAmong (items.map Prod.fst) + set.size := by
  obtain ⟨later, laterTree, call, coupledLater, scores⟩ :=
    sumCalls_spec (fun item member => zadd_steps (ordered item member)) coupled
  have grown : later.size = set.absentAmong (items.map Prod.fst) + set.size := by
    rw [coupledLater.size_eq, coupled.size_eq, absentAmong_eq, ← card_keys_insertAll, scores]
    rfl
  refine ⟨later, laterTree, ?_, coupledLater, scores, grown⟩
  rw [zaddMulti, call, grown]
  simp

theorem zremMulti_spec {set : SortedSet} {tree : AVLTree OrderedEntry Bool}
    (coupled : Coupled set tree) (members : List Bytes) :
    ∃ later laterTree,
      set.zremMulti members = some (Int32.ofInt (set.presentAmong members), later) ∧
        Coupled later laterTree ∧ later.scores = eraseAll set.scores members ∧
        later.size + set.presentAmong members = set.size := by
  obtain ⟨later, laterTree, call, coupledLater, scores⟩ :=
    sumCalls_spec (fun member (_ : member ∈ members) => zrem_steps member) coupled
  have shrunk : later.size + set.presentAmong members = set.size := by
    have lost := card_keys_eraseAll set.scores members
    rw [coupledLater.size_eq, coupled.size_eq, presentAmong_eq, scores]
    exact lost
  refine ⟨later, laterTree, ?_, coupledLater, scores, shrunk⟩
  rw [zremMulti, call, ← shrunk]
  simp

/-- A sum that is right modulo `2^32` is right as long as the `int` can hold it. -/
theorem counts_iff {set later : SortedSet} {tree : AVLTree OrderedEntry Bool}
    (coupled : Coupled later tree) {scoreOf : Bytes → Option Binary64} {count : Nat}
    (scores : ∀ member, later.scores.lookup member = scoreOf member)
    (changed : (count : ℤ) = |(later.zcard : ℤ) - set.zcard|) :
    set.Counts (some (Int32.ofInt count, later)) scoreOf count ↔ count < 2 ^ 31 := by
  constructor
  · rintro ⟨answer, -, -, -, -, exact, -⟩
    have bound := answer.toInt_lt
    omega
  · intro small
    have answer : (Int32.ofInt count).toInt = count :=
      Int32.toInt_ofInt_of_le (by omega) (by omega)
    have agrees := coupled.agrees
    rw [funext scores] at agrees
    exact ⟨Int32.ofInt count, later, _, rfl, agrees, answer, answer.trans changed⟩

section Coupled

variable {set : SortedSet} {tree : AVLTree OrderedEntry Bool} (coupled : Coupled set tree)

include coupled

theorem zaddMulti_counts_iff {items : List (Bytes × Binary64)}
    (ordered : ∀ item ∈ items, item.2.isNaN = false) :
    set.Counts (set.zaddMulti items)
        (fun member => (items.reverse.lookup member).or (set.zscore member))
        (set.absentAmong (items.map Prod.fst)) ↔
      set.absentAmong (items.map Prod.fst) < 2 ^ 31 := by
  obtain ⟨later, laterTree, call, coupledLater, scores, grown⟩ := zaddMulti_spec coupled ordered
  rw [call]
  apply counts_iff coupledLater
  · intro member
    rw [scores, lookup_insertAll]
    rfl
  · rw [zcard, zcard, grown]
    simp

theorem zremMulti_counts_iff (members : List Bytes) :
    set.Counts (set.zremMulti members)
        (fun member => if member ∈ members then none else set.zscore member)
        (set.presentAmong members) ↔
      set.presentAmong members < 2 ^ 31 := by
  obtain ⟨later, laterTree, call, coupledLater, scores, shrunk⟩ := zremMulti_spec coupled members
  rw [call]
  apply counts_iff coupledLater
  · intro member
    rw [scores, lookup_eraseAll]
    rfl
  · rw [zcard, zcard, ← shrunk]
    simp

end Coupled

/-- **Bulk updates count and apply correctly exactly below `2^31` changes.** The last score of a
member in the list stays, and members that are not listed keep theirs. -/
theorem run_multi_counts_iff (ops : List SetOp) (ordered : ∀ op ∈ ops, op.Ordered) :
    ∃ set, run ops = some set ∧
      (∀ items : List (Bytes × Binary64), (∀ item ∈ items, item.2.isNaN = false) →
        (set.Counts (set.zaddMulti items)
            (fun member => (items.reverse.lookup member).or (set.zscore member))
            (set.absentAmong (items.map Prod.fst)) ↔
          set.absentAmong (items.map Prod.fst) < 2 ^ 31)) ∧
      ∀ members : List Bytes,
        (set.Counts (set.zremMulti members)
            (fun member => if member ∈ members then none else set.zscore member)
            (set.presentAmong members) ↔
          set.presentAmong members < 2 ^ 31) := by
  obtain ⟨set, tree, reached, coupled, -⟩ := run_coupled ordered
  exact ⟨set, reached, fun _ ordered => zaddMulti_counts_iff coupled ordered,
    zremMulti_counts_iff coupled⟩

theorem run_multi_counts_iff_two :
    ∃ set, run [.zadd (text "a") .one, .zadd (text "b") .zero] = some set ∧
      (∀ items : List (Bytes × Binary64), (∀ item ∈ items, item.2.isNaN = false) →
        (set.Counts (set.zaddMulti items)
            (fun member => (items.reverse.lookup member).or (set.zscore member))
            (set.absentAmong (items.map Prod.fst)) ↔
          set.absentAmong (items.map Prod.fst) < 2 ^ 31)) ∧
      ∀ members : List Bytes,
        (set.Counts (set.zremMulti members)
            (fun member => if member ∈ members then none else set.zscore member)
            (set.presentAmong members) ↔
          set.presentAmong members < 2 ^ 31) :=
  run_multi_counts_iff [.zadd (text "a") .one, .zadd (text "b") .zero] (by
    rw [List.forall_mem_cons, List.forall_mem_singleton]
    exact ⟨rfl, rfl⟩)

/-- The members that are the first `count` words of four bytes, each with the score zero. -/
def words (count : Nat) : List (Bytes × Binary64) :=
  (List.range count).map fun i => (Protocol.lengthBytes (UInt32.ofNat i), .zero)

theorem absentAmong_words {count : Nat} (fits : count ≤ 2 ^ 32) :
    empty.absentAmong ((words count).map Prod.fst) = count := by
  have distinct : ((words count).map Prod.fst).Nodup := by
    rw [words, List.map_map]
    refine List.Nodup.map_on ?_ List.nodup_range
    intro i listed j other same
    rw [List.mem_range] at listed other
    have word (k : Nat) : Protocol.Parser.lengthField _ _ _ _ = UInt32.ofNat k :=
      Protocol.lengthField_lengthBytes (UInt32.ofNat k)
    simp only [Function.comp, Protocol.lengthBytes, List.cons.injEq, and_true] at same
    obtain ⟨b0, b1, b2, b3⟩ := same
    have words := word i
    rw [b0, b1, b2, b3, word j] at words
    have values := congrArg UInt32.toNat words
    rw [UInt32.toNat_ofNat_of_lt' (listed.trans_le fits),
      UInt32.toNat_ofNat_of_lt' (other.trans_le fits)] at values
    exact values.symm
  rw [absentAmong_eq, show empty.scores.keys = ∅ from rfl, Finset.sdiff_empty,
    List.toFinset_card_of_nodup distinct, List.length_map, words, List.length_map,
    List.length_range]

/-- `2^31` new members in one call: the sum leaves the range of an `int`. -/
theorem zaddMulti_overflows :
    ¬ ∀ items : List (Bytes × Binary64), (∀ item ∈ items, item.2.isNaN = false) →
      empty.Counts (empty.zaddMulti items)
        (fun member => (items.reverse.lookup member).or (empty.zscore member))
        (empty.absentAmong (items.map Prod.fst)) := by
  intro counts
  have ordered : ∀ item ∈ words (2 ^ 31), item.2.isNaN = false := by
    intro item listed
    obtain ⟨i, -, rfl⟩ := List.mem_map.mp listed
    rfl
  have small := (zaddMulti_counts_iff Coupled.empty ordered).mp (counts _ ordered)
  rw [absentAmong_words (by omega)] at small
  exact lt_irrefl _ small

end SortedSet
end ScuffedRedis
