import ScuffedRedis.Data.SortedSetRanks

/-!
# Reverse ranges and ranges of scores

`zrevrange` reverses what `zrange` gives for the same indices. `zrangebyscore` asks the tree for
the entries between two bounds, the upper one with the string `"\xff"` as its member.
-/
namespace ScuffedRedis

open Foundation

namespace SortedSet

/-! ### Reverse ranges -/

section Agrees

variable {set : SortedSet} {scoreOf : Bytes → Option Binary64} {sorted : List (Bytes × Binary64)}
  (agrees : set.Agrees scoreOf sorted) (small : sorted.length < 2 ^ 31)

include agrees small

theorem Agrees.zrevrange_eq_iff (start stop : Int32) :
    set.zrevrange start stop true =
        slice sorted.reverse (position sorted.length start) (position sorted.length stop) ↔
      Centered sorted.length (position sorted.length start) (position sorted.length stop) := by
  have distinct : sorted.Nodup := .of_map Prod.fst agrees.distinct
  rw [zrevrange, agrees.zrange small]
  exact reverse_slice_eq_iff distinct _ _

/-- Only the middle member is found at its own reverse rank. -/
theorem Agrees.zrevrange_zrevrank {member : Bytes} {revrank : Int32}
    (ranked : set.zrevrank member = some revrank) :
    ∃ score, scoreOf member = some score ∧
      (set.zrevrange revrank revrank true = [(member, score)] ↔
        2 * revrank.toInt = sorted.length - 1) := by
  have listed : scoreOf member ≠ none := by
    intro unlisted
    simp [(agrees.absent member).2.mpr unlisted] at ranked
  obtain ⟨score, known⟩ := Option.ne_none_iff_exists'.mp listed
  obtain ⟨index, rank, revrank', here, -, -, ranked', placed⟩ :=
    agrees.zrank small member score known
  obtain rfl : revrank' = revrank := by simpa [ranked] using ranked'.symm
  refine ⟨score, known, ?_⟩
  have bound : index < sorted.length := (List.getElem?_eq_some_iff.mp here).1
  have distinct : sorted.Nodup := .of_map Prod.fst agrees.distinct
  rw [agrees.zcard] at placed
  obtain ⟨mirrored, place⟩ : ∃ mirrored : Nat, revrank'.toInt = mirrored :=
    ⟨sorted.length - 1 - index, by omega⟩
  have inside : mirrored < sorted.length := by omega
  -- The range shows the one entry at the position that the reverse rank is.
  have found := List.getElem?_eq_getElem inside
  have single : slice sorted mirrored mirrored = [sorted[mirrored]] := by
    rw [slice_cons found (le_refl _), slice_eq_nil (by omega)]
  have normal : position sorted.length revrank' = mirrored := by
    rw [position, if_pos (by omega), place]
  rw [zrevrange, agrees.zrange small, normal, single, List.reverse_singleton, List.singleton_inj,
    place]
  constructor
  · intro same
    rw [same, ← here] at found
    have equal := (List.getElem?_inj inside distinct).mp found
    omega
  · intro middle
    obtain rfl : mirrored = index := by omega
    exact Option.some.inj (found.symm.trans here)

omit small in
/-- The range from 0 to -1 is the whole list. -/
theorem Agrees.zrange_all (small : sorted.length < 2 ^ 31) : set.zrange 0 (-1) true = sorted := by
  have whole : position sorted.length (-1) = sorted.length - 1 := by
    simp [position]
    omega
  rw [agrees.zrange small, whole]
  simpa [position] using slice_eq_drop_take sorted 0 sorted.length

end Agrees

/-- **Reverse ranges.** After every run without NaN, a reverse range is what the list in
descending order has at the same positions exactly when the range is empty or in the middle of the
list. The range from a reverse rank to itself is its member exactly for the member in the middle. -/
theorem run_zrevrange_iff (ops : List SetOp) (ordered : ∀ op ∈ ops, op.Ordered) :
    ∃ set sorted, run ops = some set ∧ set.Agrees (lastScore ops) sorted ∧
      (sorted.length < 2 ^ 31 →
        (∀ start stop, set.zrevrange start stop true =
            slice sorted.reverse (position sorted.length start) (position sorted.length stop) ↔
          Centered sorted.length (position sorted.length start) (position sorted.length stop)) ∧
        ∀ member revrank, set.zrevrank member = some revrank →
          ∃ score, lastScore ops member = some score ∧
            (set.zrevrange revrank revrank true = [(member, score)] ↔
              2 * revrank.toInt = sorted.length - 1)) := by
  obtain ⟨set, tree, reached, -, agrees⟩ := run_coupled ordered
  exact ⟨set, _, reached, agrees, fun small =>
    ⟨agrees.zrevrange_eq_iff small, fun _ _ => agrees.zrevrange_zrevrank small⟩⟩

theorem run_zrevrange_iff_two :
    (∀ op ∈ [SetOp.zadd (text "a") .zero, .zadd (text "b") .one], op.Ordered) ∧
      ∃ set sorted, run [.zadd (text "a") .zero, .zadd (text "b") .one] = some set ∧
        set.Agrees (lastScore [.zadd (text "a") .zero, .zadd (text "b") .one]) sorted ∧
        (sorted.length < 2 ^ 31 →
          (∀ start stop, set.zrevrange start stop true =
              slice sorted.reverse (position sorted.length start) (position sorted.length stop) ↔
            Centered sorted.length (position sorted.length start) (position sorted.length stop)) ∧
          ∀ member revrank, set.zrevrank member = some revrank →
            ∃ score,
              lastScore [.zadd (text "a") .zero, .zadd (text "b") .one] member = some score ∧
              (set.zrevrange revrank revrank true = [(member, score)] ↔
                2 * revrank.toInt = sorted.length - 1)) := by
  have ordered : ∀ op ∈ [SetOp.zadd (text "a") .zero, .zadd (text "b") .one], op.Ordered := by
    simp [SetOp.Ordered]
    decide
  exact ⟨ordered, run_zrevrange_iff _ ordered⟩

/-- With scores 0 and 1, the first of the descending order is the second member, and the reverse
range from 0 to 0 shows the first. -/
theorem zrevrange_shows_lowest : ¬ ∀ (ops : List SetOp) (set : SortedSet),
    (∀ op ∈ ops, op.Ordered) → run ops = some set → set.zcard < 2 ^ 31 → ∀ start stop,
      set.zrevrange start stop true =
        slice (set.zrange 0 (-1) true).reverse (position set.zcard start)
          (position set.zcard stop) := by
  intro reversed
  have ordered : ∀ op ∈ [SetOp.zadd (text "a") .zero, .zadd (text "b") .one], op.Ordered := by
    simp [SetOp.Ordered]
    decide
  have shown := reversed _ _ ordered rfl (by decide) 0 0
  exact absurd shown (by decide)

/-! ### Ranges of scores -/

/-- The score of an entry is in the interval. -/
def within (min max : Binary64) (entry : Bytes × Binary64) : Bool :=
  min.atMost entry.2 && entry.2.atMost max

/-- The strings above the one that stands for the greatest. -/
def Beyond (member : Bytes) : Prop := ∃ byte rest, member = 0xFF :: byte :: rest

theorem lt_iff_beyond (member : Bytes) : ([0xFF] : Bytes) < member ↔ Beyond member := by
  have greatest (byte : UInt8) : ¬ (0xFF : UInt8) < byte := by
    rw [UInt8.lt_iff_toNat_lt, not_lt]
    exact Nat.le_of_lt_succ byte.toNat_lt
  rcases member with - | ⟨first, - | ⟨second, rest⟩⟩
  · simp [Beyond]
  · simp [Beyond, List.cons_lt_cons_iff, greatest]
  · simp [Beyond, List.cons_lt_cons_iff, greatest, eq_comm]

section Bounds

variable {min max : Binary64} {entry : SortedSetEntry}
  (inside : within min max (entry.member, entry.score) = true)

include inside

/-- No entry of the interval is below the lower bound. -/
theorem not_less_minEntry : entry.less ⟨min, []⟩ = false := by
  simp only [within, Bool.and_eq_true, Binary64.atMost_iff] at inside
  obtain ⟨⟨orderedMin, ordered, lower⟩, -⟩ := inside
  rw [SortedSetEntry.less]
  split
  next =>
    rw [Bool.eq_false_iff, ne_eq, Binary64.less_iff ordered orderedMin]
    exact not_lt.mpr lower
  next => simp

/-- One with the score of the upper bound is above it when its member is. -/
theorem maxEntry_less_iff :
    SortedSetEntry.less ⟨max, [0xFF]⟩ entry = true ↔
      max.atMost entry.score = true ∧ Beyond entry.member := by
  simp only [within, Bool.and_eq_true, Binary64.atMost_iff] at inside
  obtain ⟨-, ordered, orderedMax, upper⟩ := inside
  have notBelow : ¬ max.less entry.score = true := by
    rw [Binary64.less_iff orderedMax ordered]
    exact not_lt.mpr upper
  -- A score in the interval differs from the upper bound when it is below it.
  have same : max.differs entry.score = true ↔ ¬ max.atMost entry.score = true := by
    rw [Binary64.differs_iff orderedMax ordered, Binary64.atMost_iff]
    simp [ordered, orderedMax]
    omega
  rw [SortedSetEntry.less, ← lt_iff_beyond]
  by_cases differs : max.differs entry.score = true
  · rw [if_pos differs]
    exact iff_of_false notBelow fun both => same.mp differs both.1
  · rw [if_neg differs, decide_eq_true_eq]
    exact (and_iff_right (not_not.mp (mt same.mpr differs))).symm

end Bounds

section Scores

variable {set : SortedSet} {tree : AVLTree OrderedEntry Bool} (coupled : Coupled set tree)

include coupled

theorem range_eq {start stop : SortedSetEntry} (orderedStart : start.score.isNaN = false)
    (orderedStop : stop.score.isNaN = false) :
    set.tree.range SortedSetEntry.less start stop =
      set.tree.inorder.filter fun entry => !entry.1.less start && !stop.less entry.1 := by
  have renamed := AVLTree.range_rename less_agrees tree ⟨start, orderedStart⟩ ⟨stop, orderedStop⟩
  rw [coupled.inorder_eq, coupled.renamed, renamed, coupled.valid.refines.range, List.filter_map]
  rfl

/-- What the range of scores has of the entries in the interval: those that are not above its
upper bound. -/
theorem zrangebyscore_eq (min max : Binary64) (withScores : Bool) :
    set.zrangebyscore min max withScores =
      ((set.tree.inorder.filter fun entry => within min max (shown true entry)).filter
        fun entry => !SortedSetEntry.less ⟨max, [0xFF]⟩ entry.1).map (shown withScores) := by
  have query : set.zrangebyscore min max withScores =
      ((set.tree.range SortedSetEntry.less ⟨min, []⟩ ⟨max, [0xFF]⟩).filter
        fun entry => within min max (shown true entry)).map (shown withScores) := rfl
  by_cases ordered : min.isNaN = false ∧ max.isNaN = false
  · have range : set.tree.range SortedSetEntry.less ⟨min, []⟩ ⟨max, [0xFF]⟩ = _ :=
      range_eq coupled ordered.1 ordered.2
    rw [query, range, List.filter_filter, List.filter_filter]
    congr 1
    apply List.filter_congr
    intro entry _
    by_cases inside : within min max (shown true entry) = true
    · have lower : entry.1.less ⟨min, []⟩ = false := not_less_minEntry inside
      simp [inside, lower]
    · simp [inside]
  · -- No score is at least NaN or at most NaN.
    have outside (entry : SortedSetEntry × Bool) : within min max (shown true entry) = false := by
      simp [within, Binary64.atMost]
      grind
    simp [query, outside]

/-- Both queries leave out the entries beyond the bound, and no others. -/
theorem zrangebyscore_iff (min max : Binary64) :
    set.zrangebyscore min max true =
          (set.tree.inorder.map (shown true)).filter (within min max) ∧
        set.zcount min max =
          ((set.tree.inorder.map (shown true)).filter (within min max)).length ↔
      ∀ entry ∈ set.tree.inorder.map (shown true), within min max entry = true →
        max.atMost entry.2 = true → ¬ Beyond entry.1 := by
  have wanted : (set.tree.inorder.map (shown true)).filter (within min max) =
      (set.tree.inorder.filter fun entry => within min max (shown true entry)).map (shown true) :=
    List.filter_map
  rw [zcount, zrangebyscore_eq coupled, zrangebyscore_eq coupled, wanted, List.length_map,
    List.length_map]
  constructor
  · -- The count is right only when the filter leaves nothing out.
    rintro ⟨-, count⟩ entry listed inside highest beyond
    obtain ⟨found, present, rfl⟩ := List.mem_map.mp listed
    have kept := List.length_filter_eq_length_iff.mp count found
      (List.mem_filter.mpr ⟨present, inside⟩)
    have above : SortedSetEntry.less ⟨max, [0xFF]⟩ found.1 = true :=
      (maxEntry_less_iff inside).mpr ⟨highest, beyond⟩
    simp [above] at kept
  · intro never
    rw [List.filter_eq_self.mpr]
    · exact ⟨rfl, rfl⟩
    intro entry listed
    obtain ⟨present, inside⟩ := List.mem_filter.mp listed
    rw [Bool.not_eq_true', Bool.eq_false_iff, ne_eq, maxEntry_less_iff inside]
    rintro ⟨highest, beyond⟩
    exact never (shown true entry) (List.mem_map_of_mem present) inside highest beyond

end Scores

/-- **Ranges of scores.** After every run without NaN, a range of scores and its count are those of
the entries in the interval exactly when no entry with the upper score has a member of more than
one byte that starts with the greatest one. -/
theorem run_zrangebyscore_iff (ops : List SetOp) (ordered : ∀ op ∈ ops, op.Ordered) :
    ∃ set sorted, run ops = some set ∧ set.Agrees (lastScore ops) sorted ∧
      (sorted.length < 2 ^ 31 → set.zrange 0 (-1) true = sorted) ∧
      ∀ min max,
        set.zrangebyscore min max true = sorted.filter (within min max) ∧
            set.zcount min max = (sorted.filter (within min max)).length ↔
          ∀ entry ∈ sorted, within min max entry = true → max.atMost entry.2 = true →
            ¬ Beyond entry.1 := by
  obtain ⟨set, tree, reached, coupled, agrees⟩ := run_coupled ordered
  refine ⟨set, _, reached, agrees, agrees.zrange_all, zrangebyscore_iff coupled⟩

theorem run_zrangebyscore_iff_two :
    (∀ op ∈ [SetOp.zadd (text "a") .zero, .zadd [0xFF, 0] .one], op.Ordered) ∧
      ∃ set sorted, run [.zadd (text "a") .zero, .zadd [0xFF, 0] .one] = some set ∧
        set.Agrees (lastScore [.zadd (text "a") .zero, .zadd [0xFF, 0] .one]) sorted ∧
        (sorted.length < 2 ^ 31 → set.zrange 0 (-1) true = sorted) ∧
        ∀ min max,
          set.zrangebyscore min max true = sorted.filter (within min max) ∧
              set.zcount min max = (sorted.filter (within min max)).length ↔
            ∀ entry ∈ sorted, within min max entry = true → max.atMost entry.2 = true →
              ¬ Beyond entry.1 := by
  have ordered : ∀ op ∈ [SetOp.zadd (text "a") .zero, .zadd [0xFF, 0] .one], op.Ordered := by
    simp [SetOp.Ordered]
    decide
  exact ⟨ordered, run_zrangebyscore_iff _ ordered⟩

/-- The one member of the set is above `"\xff"`, and has the upper score. -/
theorem zrangebyscore_misses_member : ¬ ∀ (ops : List SetOp) (set : SortedSet),
    (∀ op ∈ ops, op.Ordered) → run ops = some set → ∀ min max,
      set.zrangebyscore min max true = (set.zrange 0 (-1) true).filter (within min max) ∧
        set.zcount min max = ((set.zrange 0 (-1) true).filter (within min max)).length := by
  intro exact
  have ordered : ∀ op ∈ [SetOp.zadd [0xFF, 0] .one], op.Ordered := by
    simp [SetOp.Ordered]
    decide
  have shown := (exact _ _ ordered rfl .zero .one).2
  exact absurd shown (by decide)

end SortedSet
end ScuffedRedis
