import ScuffedRedis.Data.SortedSetLaws
import ScuffedRedis.Foundation.SignedArithmetic
import ScuffedRedis.Foundation.Slices

/-!
# Ranks and slices of a sorted set

As long as no score is NaN, every run couples the tree with the scores. Ranks and ranges then
agree with the list of members and scores in order, for every pair of indices.
-/
namespace ScuffedRedis

open Foundation

namespace SortedSet

/-! ### Ranges -/

/-- The position that an index means: a negative one counts from the end. -/
def position (length : Nat) (index : Int32) : Int :=
  if 0 ≤ index.toInt then index.toInt else length + index.toInt

/-- What a range shows of an entry. -/
def shown (withScores : Bool) (entry : SortedSetEntry × Bool) : Bytes × Binary64 :=
  (entry.1.member, if withScores then entry.1.score else .zero)

theorem zrangeLoop_eq {allEntries : List (SortedSetEntry × Bool)}
    (small : allEntries.length < 2 ^ 31) (withScores : Bool) (stop : Int32) {fuel index : Nat}
    {i : Int32} (here : i.toInt = index) (enough : allEntries.length ≤ index + fuel)
    (result : List (Bytes × Binary64)) :
    zrangeLoop withScores allEntries stop fuel i result =
      result ++ (slice allEntries index stop.toInt).map (shown withScores) := by
  have length : (Int32.ofNat allEntries.length).toInt = allEntries.length :=
    Int32.toInt_ofNat_of_lt small
  -- The index moves up with the loop, so the fuel left covers the entries left.
  induction fuel generalizing index i result with
  | zero =>
    rw [Nat.add_zero] at enough
    rw [slice_of_length_le enough]
    exact (List.append_nil result).symm
  | succ fuel ih =>
    have test : (i ≤ stop ∧ i < Int32.ofNat allEntries.length) ↔
        (index : Int) ≤ stop.toInt ∧ index < allEntries.length := by
      rw [Int32.le_iff_toInt_le, Int32.lt_iff_toInt_lt, length, here, Nat.cast_lt]
    rw [zrangeLoop]
    by_cases inside : (index : Int) ≤ stop.toInt ∧ index < allEntries.length
    · have next : (i + 1).toInt = (index + 1 : Nat) :=
        toInt32_add here Int32.toInt_one (by omega) (by omega)
      have found := List.getElem?_eq_getElem inside.2
      rw [if_pos (test.mpr inside), here, Int.toNat_natCast, found, slice_cons found inside.1]
      simp only [ih next (by omega), List.append_assoc]
      rfl
    · rw [if_neg (mt test.mp inside)]
      have nothing : slice allEntries index stop.toInt = [] := by
        rcases not_and_or.mp inside with beyond | beyond
        · exact slice_eq_nil (not_le.mp beyond)
        · exact slice_of_length_le (not_lt.mp beyond)
      rw [nothing]
      exact (List.append_nil result).symm

theorem normalizeIndex_toInt {set : SortedSet} (small : set.size < 2 ^ 31) (index : Int32) :
    (set.normalizeIndex index).toInt = position set.size index := by
  have size : (Int32.ofNat set.size).toInt = set.size := Int32.toInt_ofNat_of_lt small
  have lower := index.le_toInt
  rw [normalizeIndex, position]
  by_cases negative : index < 0
  · have below : index.toInt < 0 := Int32.lt_iff_toInt_lt.mp negative
    rw [if_pos negative, if_neg (not_le.mpr below)]
    exact toInt32_add size rfl (by omega) (by omega)
  · have nonneg : 0 ≤ index.toInt := Int32.le_iff_toInt_le.mp (Int32.not_lt.mp negative)
    rw [if_neg negative, if_pos nonneg]

section Clamped

variable {set : SortedSet} (small : set.size < 2 ^ 31)

include small

theorem start_toInt (start : Int32) :
    (if set.normalizeIndex start < 0 then 0 else set.normalizeIndex start).toInt =
      max 0 (position set.size start) := by
  have normal := normalizeIndex_toInt small start
  split
  next negative =>
    have below : (set.normalizeIndex start).toInt < 0 := Int32.lt_iff_toInt_lt.mp negative
    rw [max_eq_left (by omega)]
    rfl
  next nonneg =>
    have above : 0 ≤ (set.normalizeIndex start).toInt :=
      Int32.le_iff_toInt_le.mp (Int32.not_lt.mp nonneg)
    rw [max_eq_right (by omega), normal]

theorem stop_toInt (nonempty : 0 < set.size) (stop : Int32) :
    (if set.normalizeIndex stop ≥ Int32.ofNat set.size then Int32.ofNat (set.size - 1)
      else set.normalizeIndex stop).toInt = min (position set.size stop) (set.size - 1) := by
  -- The size is positive here, so the last index does not wrap.
  have normal := normalizeIndex_toInt small stop
  have size : (Int32.ofNat set.size).toInt = set.size := Int32.toInt_ofNat_of_lt small
  have final : (Int32.ofNat (set.size - 1)).toInt = (set.size - 1 : Nat) :=
    Int32.toInt_ofNat_of_lt (by omega)
  split
  next beyond =>
    have above : (Int32.ofNat set.size).toInt ≤ (set.normalizeIndex stop).toInt :=
      Int32.le_iff_toInt_le.mp beyond
    rw [min_eq_right (by omega), final]
    omega
  next inside =>
    have below : (set.normalizeIndex stop).toInt < (Int32.ofNat set.size).toInt :=
      Int32.lt_iff_toInt_lt.mp (Int32.not_le.mp inside)
    rw [min_eq_left (by omega), normal]

/-- The clamping of both ends leaves out no position of the list. -/
theorem zrange_eq (counted : set.size = set.tree.inorder.length) (start stop : Int32)
    (withScores : Bool) :
    set.zrange start stop withScores =
      (slice set.tree.inorder (position set.size start) (position set.size stop)).map
        (shown withScores) := by
  rw [zrange]
  by_cases nothing : set.size = 0
  · have empty : set.tree.inorder = [] := List.eq_nil_of_length_eq_zero (counted.symm.trans nothing)
    rw [if_pos nothing, empty]
    rfl
  · have first := start_toInt small start
    have last := stop_toInt small (Nat.pos_of_ne_zero nothing) stop
    have clamped : slice set.tree.inorder (position set.size start) (position set.size stop) =
        slice set.tree.inorder (max 0 (position set.size start))
          (min (position set.size stop) (set.size - 1)) := by
      apply slice_congr
      intro index inside
      omega
    rw [if_neg nothing, clamped]
    dsimp only
    -- Only the values of the two clamped ends matter from here on.
    generalize (if set.normalizeIndex start < 0 then 0 else set.normalizeIndex start) = i at first ⊢
    generalize (if set.normalizeIndex stop ≥ Int32.ofNat set.size then Int32.ofNat (set.size - 1)
      else set.normalizeIndex stop) = k at last ⊢
    rw [← last, ← first]
    by_cases backwards : i > k
    · rw [if_pos backwards, slice_eq_nil (Int32.lt_iff_toInt_lt.mp backwards)]
      rfl
    · have whole : i.toInt = i.toInt.toNat := by omega
      rw [counted] at small
      rw [if_neg backwards, zrangeLoop_eq small withScores k whole (by omega), ← whole]
      exact List.nil_append _

end Clamped

/-! ### Ranks -/

section Ranks

variable {set : SortedSet} {tree : AVLTree OrderedEntry Bool} (coupled : Coupled set tree)

include coupled

/-- The rank of a listed member is its place among the entries. -/
theorem zrank_spec (small : set.size < 2 ^ 31) {member : Bytes} {score : Binary64}
    (bound : set.scores.lookup member = some score) :
    ∃ (index : Nat) (rank : Int32) (value : Bool),
      set.tree.inorder[index]? = some (⟨score, member⟩, value) ∧
        set.zrank member = some rank ∧ rank.toInt = index := by
  obtain ⟨entry, present, rfl, rfl⟩ := (coupled.listed.lookup member score).mp bound
  have self : SortedEntries.equivalent OrderedEntry.less entry.1 entry.1 = true :=
    (SortedEntries.equivalent_iff_rank OrderedEntry.less_iff _ _).mpr rfl
  obtain ⟨index, other, here, same, placed⟩ := AVLNode.indexOf_of_listed present self
  have listed : other ∈ tree.root.entries := List.mem_of_getElem? here
  -- The entry at this place has the member that is sought, and therefore its score.
  have member := OrderedEntry.member_of_equivalent same
  have scored := coupled.listed.lookup_key listed
  rw [← member, bound] at scored
  have whole : other.1.1 = ⟨entry.1.1.score, entry.1.1.member⟩ := by
    rw [member, Option.some.inj scored]
  have count : tree.root.nodeCount < 2 ^ 31 := by
    rw [AVLNode.nodeCount_eq, ← coupled.size]
    exact small
  refine ⟨index, tree.rank OrderedEntry.less entry.1, other.2, ?_, ?_, ?_⟩
  · rw [coupled.inorder_eq, List.getElem?_map, here, ← whole]
    rfl
  · rw [zrank, bound, coupled.renamed]
    exact congrArg some (AVLTree.rank_rename less_agrees tree entry.1)
  · exact (AVLNode.getRank_spec coupled.valid.ordered count entry.1).trans placed

end Ranks

/-! ### Runs -/

/-- The score of a member after a call. -/
def scoreAfter (member : Bytes) (known : Option Binary64) : SetOp → Option Binary64
  | .zadd other score => if other = member then some score else known
  | .zrem other => if other = member then none else known
  | .clear => none

/-- The score of the last `zadd` of a member that no `zrem` of it and no `clear` follows. -/
def lastScore (ops : List SetOp) (member : Bytes) : Option Binary64 :=
  ops.foldl (scoreAfter member) none

end SortedSet

/-- No NaN is added. -/
def SetOp.Ordered : SetOp → Prop
  | .zadd _ score => score.isNaN = false
  | _ => True

namespace SortedSet

theorem next_spec {set : SortedSet} {tree : AVLTree OrderedEntry Bool} (coupled : Coupled set tree)
    {op : SetOp} (ordered : op.Ordered) :
    ∃ later laterTree, set.next op = some later ∧ Coupled later laterTree ∧
      ∀ member, later.scores.lookup member = scoreAfter member (set.scores.lookup member) op := by
  cases op with
  | zadd member score =>
    obtain ⟨later, laterTree, call, coupledLater, scores⟩ := zadd_spec coupled member ordered
    refine ⟨later, laterTree, next_zadd call, coupledLater, fun other => ?_⟩
    rw [scores, scoreAfter, lookup_insert_eq]
  | zrem member =>
    obtain ⟨later, laterTree, call, coupledLater, scores⟩ := zrem_spec coupled member
    refine ⟨later, laterTree, next_zrem call, coupledLater, fun other => ?_⟩
    rw [scores, scoreAfter, lookup_erase_eq]
  | clear => exact ⟨empty, .empty, rfl, .empty, fun _ => Finmap.lookup_empty _⟩

theorem foldlM_coupled {set : SortedSet} {tree : AVLTree OrderedEntry Bool}
    (coupled : Coupled set tree) {ops : List SetOp} (ordered : ∀ op ∈ ops, op.Ordered) :
    ∃ last lastTree, ops.foldlM next set = some last ∧ Coupled last lastTree ∧
      ∀ member, last.scores.lookup member =
        ops.foldl (scoreAfter member) (set.scores.lookup member) := by
  induction ops generalizing set tree with
  | nil => exact ⟨set, tree, rfl, coupled, fun _ => rfl⟩
  | cons op ops ih =>
    rw [List.forall_mem_cons] at ordered
    obtain ⟨later, laterTree, call, coupledLater, scores⟩ := next_spec coupled ordered.1
    obtain ⟨last, lastTree, rest, coupledLast, final⟩ := ih coupledLater ordered.2
    refine ⟨last, lastTree, ?_, coupledLast, fun member => ?_⟩
    · rw [List.foldlM_cons, call]
      exact rest
    · rw [final, scores, List.foldl_cons]

/-- What the queries of a set answer when its members and their scores, in order, are `sorted`. -/
structure Agrees (set : SortedSet) (scoreOf : Bytes → Option Binary64)
    (sorted : List (Bytes × Binary64)) : Prop where
  ordered : sorted.Pairwise fun first second =>
    SortedSetEntry.less ⟨first.2, first.1⟩ ⟨second.2, second.1⟩ = true
  distinct : (sorted.map Prod.fst).Nodup
  listed : ∀ member score, (member, score) ∈ sorted ↔ scoreOf member = some score
  zscore : ∀ member, set.zscore member = scoreOf member
  zcard : set.zcard = sorted.length
  zrange : sorted.length < 2 ^ 31 → ∀ start stop, set.zrange start stop true =
    slice sorted (position sorted.length start) (position sorted.length stop)
  zrank : sorted.length < 2 ^ 31 → ∀ member score, scoreOf member = some score →
    ∃ (index : Nat) (rank revrank : Int32), sorted[index]? = some (member, score) ∧
      set.zrank member = some rank ∧ rank.toInt = index ∧
      set.zrevrank member = some revrank ∧ revrank.toInt = set.zcard - 1 - index
  absent : ∀ member, (set.zrank member = none ↔ scoreOf member = none) ∧
    (set.zrevrank member = none ↔ scoreOf member = none)

theorem Coupled.agrees {set : SortedSet} {tree : AVLTree OrderedEntry Bool}
    (coupled : Coupled set tree) :
    set.Agrees (fun member => set.scores.lookup member) (set.tree.inorder.map (shown true)) := by
  have length : (set.tree.inorder.map (shown true)).length = set.size := by
    rw [coupled.inorder_eq, List.length_map, List.length_map, coupled.size]
  have counted : set.size = set.tree.inorder.length := by
    rw [← length, List.length_map]
  refine ⟨?_, ?_, fun member score => ?_, fun _ => rfl, length.symm, fun small start stop => ?_,
    fun small member score bound => ?_, fun member => ?_⟩
  · rw [coupled.inorder_eq, List.map_map, List.pairwise_map]
    exact (AVLTree.valid_iff.mp coupled.valid).2.1
  · rw [List.map_map]
    exact coupled.lists.distinct
  · rw [coupled.lists.lookup member score, List.mem_map]
    constructor
    · rintro ⟨entry, present, shows⟩
      exact ⟨entry, present, congrArg Prod.fst shows, congrArg Prod.snd shows⟩
    · rintro ⟨entry, present, named, scored⟩
      exact ⟨entry, present, Prod.ext named scored⟩
  · rw [length] at small ⊢
    rw [zrange_eq small counted, slice_map]
  · rw [length] at small
    obtain ⟨index, rank, value, here, ranked, placed⟩ := zrank_spec coupled small bound
    have bound : index < set.tree.inorder.length := (List.getElem?_eq_some_iff.mp here).1
    have size : (Int32.ofNat set.size).toInt = set.size := Int32.toInt_ofNat_of_lt small
    -- Neither subtraction of the reverse rank wraps, since the index is inside the list.
    refine ⟨index, rank, Int32.ofNat set.size - 1 - rank, ?_, ranked, placed, ?_, ?_⟩
    · rw [List.getElem?_map, here]
      rfl
    · rw [zrevrank, ranked]
    · have final : (Int32.ofNat set.size - 1).toInt = set.size - 1 :=
        toInt32_sub size Int32.toInt_one (by omega) (by omega)
      change _ = (set.size : Int) - 1 - index
      exact toInt32_sub final placed (by omega) (by omega)
  · rw [zrevrank, zrank]
    cases set.scores.lookup member <;> simp

theorem run_coupled {ops : List SetOp} (ordered : ∀ op ∈ ops, op.Ordered) :
    ∃ set tree, run ops = some set ∧ Coupled set tree ∧
      set.Agrees (lastScore ops) (set.tree.inorder.map (shown true)) := by
  obtain ⟨set, tree, reached, coupled, scores⟩ := foldlM_coupled Coupled.empty ordered
  have known : (fun member => set.scores.lookup member) = lastScore ops := by
    funext member
    rw [scores, lastScore]
    rfl
  refine ⟨set, tree, reached, coupled, ?_⟩
  rw [← known]
  exact coupled.agrees

/-- **Ranks and slices.** After every run without NaN there is one list of the members with their
last scores, by score and then by member, that all queries agree with. -/
theorem run_agrees (ops : List SetOp) (ordered : ∀ op ∈ ops, op.Ordered) :
    ∃ set sorted, run ops = some set ∧ set.Agrees (lastScore ops) sorted := by
  obtain ⟨set, tree, reached, -, agrees⟩ := run_coupled ordered
  exact ⟨set, set.tree.inorder.map (shown true), reached, agrees⟩

theorem run_agrees_two :
    ∃ set sorted, run [.zadd (text "a") .one, .zadd (text "b") .zero] = some set ∧
      set.Agrees (lastScore [.zadd (text "a") .one, .zadd (text "b") .zero]) sorted :=
  run_agrees [.zadd (text "a") .one, .zadd (text "b") .zero] (by
    rw [List.forall_mem_cons, List.forall_mem_singleton]
    exact ⟨show Binary64.one.isNaN = false by decide, show Binary64.zero.isNaN = false by decide⟩)

end SortedSet
end ScuffedRedis
