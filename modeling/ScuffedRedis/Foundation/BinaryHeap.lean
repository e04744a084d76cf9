import Mathlib

/-!
# Binary heaps in an array

An array is the function from its indices to its values, of which the first `n` count. The
sift-up of a min-heap moves a value towards the root. The sift-down here is the one that
lets larger values rise: it is right for the reverse order, and the lemmas say what it
leaves behind when the smallest value should be at the root.
-/
namespace Foundation

variable {β : Type*}

def parent (i : Nat) : Nat := (i - 1) / 2

theorem parent_lt {i : Nat} (positive : 0 < i) : parent i < i := by
  rw [parent]
  omega

/-- The array after an exchange of two values. -/
def exchange (val : Nat → β) (i j : Nat) : Nat → β := val ∘ Equiv.swap i j

section Exchange

variable (val : Nat → β) (i j : Nat)

@[simp] theorem exchange_left : exchange val i j i = val j := by
  rw [exchange, Function.comp_apply, Equiv.swap_apply_left]

@[simp] theorem exchange_right : exchange val i j j = val i := by
  rw [exchange, Function.comp_apply, Equiv.swap_apply_right]

theorem exchange_other {k : Nat} (left : k ≠ i) (right : k ≠ j) : exchange val i j k = val k := by
  rw [exchange, Function.comp_apply, Equiv.swap_apply_of_ne_of_ne left right]

end Exchange

variable [LinearOrder β]

/-- No value is smaller than its parent. -/
def IsHeap (n : Nat) (val : Nat → β) : Prop :=
  ∀ i, 0 < i → i < n → val (parent i) ≤ val i

theorem IsHeap.root_le {n : Nat} {val : Nat → β} (heap : IsHeap n val) {i : Nat} (inRange : i < n) :
    val 0 ≤ val i := by
  induction i using Nat.strong_induction_on with
  | _ i ih =>
    rcases Nat.eq_zero_or_pos i with rfl | positive
    · exact le_refl _
    · have above := parent_lt positive
      exact (ih (parent i) above (above.trans inRange)).trans (heap i positive inRange)

theorem IsHeap.congr {n : Nat} {val other : Nat → β} (agree : ∀ i < n, val i = other i) :
    IsHeap n val ↔ IsHeap n other := by
  constructor <;> intro heap i positive inRange
  · rw [← agree i inRange, ← agree _ ((parent_lt positive).trans inRange)]
    exact heap i positive inRange
  · rw [agree i inRange, agree _ ((parent_lt positive).trans inRange)]
    exact heap i positive inRange

/-! ### Sift-up -/

/-- Moves a value up past every parent that is not smaller. -/
def siftUp (val : Nat → β) : Nat → Nat → Nat → β
  | 0, _ => val
  | fuel + 1, index =>
    if index = 0 then val
    else if val index > val (parent index) then val
    else siftUp (exchange val index (parent index)) fuel (parent index)

theorem siftUp_stays {val : Nat → β} (fuel : Nat) {index : Nat}
    (settled : index = 0 ∨ val (parent index) < val index) : siftUp val fuel index = val := by
  cases fuel with
  | zero => rfl
  | succ fuel =>
    rw [siftUp]
    rcases settled with root | larger
    · rw [if_pos root]
    · rw [if_pos (show val index > val (parent index) from larger), ite_self]

theorem siftUp_moves {val : Nat → β} (fuel : Nat) {index : Nat} (positive : 0 < index)
    (small : val index ≤ val (parent index)) :
    siftUp val (fuel + 1) index =
      siftUp (exchange val index (parent index)) fuel (parent index) := by
  rw [siftUp, if_neg positive.ne', if_neg small.not_gt]

/-- Nothing below the starting index moves. -/
theorem siftUp_below (val : Nat → β) (fuel index : Nat) {j : Nat} (below : index < j) :
    siftUp val fuel index j = val j := by
  induction fuel generalizing val index with
  | zero => rfl
  | succ fuel ih =>
    rcases Nat.eq_zero_or_pos index with root | positive
    · rw [siftUp_stays _ (.inl root)]
    rcases lt_or_ge (val (parent index)) (val index) with larger | small
    · rw [siftUp_stays _ (.inr larger)]
    · have above := parent_lt positive
      rw [siftUp_moves fuel positive small, ih _ _ (above.trans below),
        exchange_other _ _ _ below.ne' (above.trans below).ne']

/-- The value a sift-up leaves where it started. -/
theorem siftUp_start (val : Nat → β) {fuel index : Nat} (enough : index ≤ fuel) :
    siftUp val fuel index index =
      if 0 < index ∧ val index ≤ val (parent index) then val (parent index) else val index := by
  split
  next moves =>
    obtain ⟨fuel, rfl⟩ := Nat.exists_eq_add_of_lt (lt_of_lt_of_le moves.1 enough)
    rw [Nat.zero_add, siftUp_moves fuel moves.1 moves.2,
      siftUp_below _ _ _ (parent_lt moves.1), exchange_left]
  next stays =>
    rw [siftUp_stays]
    rw [not_and, not_le] at stays
    rcases Nat.eq_zero_or_pos index with root | positive
    · exact .inl root
    · exact .inr (stays positive)

/-- A heap but for the value at `index`, which may be too small for its place. -/
structure HeapButFor (n : Nat) (val : Nat → β) (index : Nat) : Prop where
  others : ∀ i, 0 < i → i < n → i ≠ index → val (parent i) ≤ val i
  grandparent : ∀ i, 0 < i → i < n → parent i = index → 0 < index → val (parent index) ≤ val i

/-- The exchange with the parent moves the one bad place up. -/
theorem HeapButFor.exchange_parent {n : Nat} {val : Nat → β} {index : Nat}
    (heap : HeapButFor n val index) (positive : 0 < index) (inRange : index < n)
    (small : val index ≤ val (parent index)) :
    HeapButFor n (exchange val index (parent index)) (parent index) := by
  have above := parent_lt positive
  constructor
  -- Only the start, its children and its sibling see a new value, and the sibling a smaller one.
  · intro i iPositive iRange elsewhere
    have iAbove := parent_lt iPositive
    by_cases start : i = index
    · subst start
      rw [exchange_left, exchange_right]
      exact small
    rw [exchange_other _ _ _ start elsewhere]
    by_cases child : parent i = index
    · rw [child, exchange_left]
      exact heap.grandparent i iPositive iRange child positive
    by_cases sibling : parent i = parent index
    · rw [sibling, exchange_right]
      have order := heap.others i iPositive iRange start
      rw [sibling] at order
      exact small.trans order
    · rw [exchange_other _ _ _ child sibling]
      exact heap.others i iPositive iRange start
  · intro i iPositive iRange child topPositive
    have top := parent_lt topPositive
    have upper : val (parent (parent index)) ≤ val (parent index) :=
      heap.others _ topPositive (above.trans inRange) above.ne
    rw [exchange_other _ _ _ (top.trans above).ne top.ne]
    by_cases start : i = index
    · rw [start, exchange_left]
      exact upper
    · have order := heap.others i iPositive iRange start
      rw [child] at order
      have apart : i ≠ parent index := by
        have := parent_lt iPositive
        omega
      rw [exchange_other _ _ _ start apart]
      exact upper.trans order

/-- Sifting the bad value up makes a heap. -/
theorem HeapButFor.isHeap_siftUp {n : Nat} {val : Nat → β} {fuel index : Nat}
    (heap : HeapButFor n val index) (inRange : index < n) (enough : index ≤ fuel) :
    IsHeap n (siftUp val fuel index) := by
  -- The bad place moves to the parent, so the fuel covers what is left of the way up.
  induction fuel generalizing val index with
  | zero =>
    intro i positive iRange
    exact heap.others i positive iRange (by omega)
  | succ fuel ih =>
    rcases Nat.eq_zero_or_pos index with root | positive
    · rw [siftUp_stays _ (.inl root)]
      intro i iPositive iRange
      exact heap.others i iPositive iRange (by omega)
    rcases lt_or_ge (val (parent index)) (val index) with larger | small
    · rw [siftUp_stays _ (.inr larger)]
      intro i iPositive iRange
      by_cases start : i = index
      · rw [start]
        exact larger.le
      · exact heap.others i iPositive iRange start
    · have above := parent_lt positive
      rw [siftUp_moves fuel positive small]
      exact ih (heap.exchange_parent positive inRange small) (above.trans inRange) (by omega)

/-! ### Sift-down -/

/-- The larger child of an index, if it is larger than the value there, else the index. -/
def risingChild (n : Nat) (val : Nat → β) (index : Nat) : Nat :=
  let left := 2 * index + 1
  let right := 2 * index + 2
  let rising := index
  let rising := if left < n ∧ val left > val rising then left else rising
  if right < n ∧ val right > val rising then right else rising

/-- Moves a value down past every child that is larger. -/
def siftDown (n : Nat) (val : Nat → β) : Nat → Nat → Nat → β
  | 0, _ => val
  | fuel + 1, index =>
    if risingChild n val index = index then val
    else siftDown n (exchange val index (risingChild n val index)) fuel (risingChild n val index)

theorem risingChild_cases (n : Nat) (val : Nat → β) (index : Nat) :
    (risingChild n val index = index ∧
        ∀ c, 0 < c → c < n → parent c = index → val c ≤ val index) ∨
      (risingChild n val index < n ∧ index < risingChild n val index ∧
        parent (risingChild n val index) = index ∧ val index < val (risingChild n val index)) := by
  simp only [risingChild, gt_iff_lt]
  split_ifs with leftLarger rightLarger rightLarger
  · have order := leftLarger.2.trans rightLarger.2
    exact .inr ⟨rightLarger.1, by omega, by rw [parent]; omega, order⟩
  · exact .inr ⟨leftLarger.1, by omega, by rw [parent]; omega, leftLarger.2⟩
  · exact .inr ⟨rightLarger.1, by omega, by rw [parent]; omega, rightLarger.2⟩
  -- Neither child rises, and an index has no others.
  · refine .inl ⟨rfl, fun c positive inRange child => ?_⟩
    rw [parent] at child
    obtain rfl | rfl : c = 2 * index + 1 ∨ c = 2 * index + 2 := by omega
    · exact not_lt.mp fun larger => leftLarger ⟨inRange, larger⟩
    · exact not_lt.mp fun larger => rightLarger ⟨inRange, larger⟩

theorem siftDown_stays {n : Nat} {val : Nat → β} (fuel : Nat) {index : Nat}
    (settled : ∀ c, 0 < c → c < n → parent c = index → val c ≤ val index) :
    siftDown n val fuel index = val := by
  cases fuel with
  | zero => rfl
  | succ fuel =>
    rw [siftDown]
    rcases risingChild_cases n val index with ⟨same, -⟩ | ⟨inRange, below, child, larger⟩
    · rw [if_pos same]
    · exact absurd (settled _ (by omega) inRange child) larger.not_ge

/-- Nothing above the starting index moves. -/
theorem siftDown_above (n : Nat) (val : Nat → β) (fuel index : Nat) {j : Nat} (above : j < index) :
    siftDown n val fuel index j = val j := by
  induction fuel generalizing val index with
  | zero => rfl
  | succ fuel ih =>
    rw [siftDown]
    rcases risingChild_cases n val index with ⟨same, -⟩ | ⟨-, below, -, -⟩
    · rw [if_pos same]
    · rw [if_neg below.ne', ih _ _ (above.trans below),
        exchange_other _ _ _ above.ne (above.trans below).ne]

/-- Once a value sinks it comes to rest under a larger one, and a larger one takes its
place. -/
theorem siftDown_sinks {n : Nat} {val : Nat → β} {fuel index c : Nat} (enough : n ≤ index + fuel)
    (positive : 0 < c) (inRange : c < n) (child : parent c = index) (larger : val index < val c) :
    ∃ d, index < d ∧ d < n ∧ siftDown n val fuel index d = val index ∧
      val index < siftDown n val fuel index (parent d) ∧
      val index < siftDown n val fuel index index := by
  induction fuel generalizing val index c with
  | zero =>
    have := parent_lt positive
    omega
  | succ fuel ih =>
    rw [siftDown]
    rcases risingChild_cases n val index with ⟨-, settled⟩ | ⟨risingRange, below, rises, above⟩
    · exact absurd (settled c positive inRange child) larger.not_ge
    rw [if_neg below.ne']
    generalize risingChild n val index = rising at risingRange below rises above
    -- The value now stands at `rising`, under the larger one that took its place.
    have sunk : exchange val index rising rising = val index := exchange_right _ _ _
    have raised : ∀ fuel, siftDown n (exchange val index rising) fuel rising index =
      val rising := by
      intro fuel
      rw [siftDown_above _ _ _ _ below, exchange_left]
    by_cases rest : ∀ c, 0 < c → c < n → parent c = rising →
        exchange val index rising c ≤ exchange val index rising rising
    · refine ⟨rising, below, risingRange, ?_, ?_, ?_⟩
      · rw [siftDown_stays fuel rest, sunk]
      · rw [rises, raised]
        exact above
      · rw [raised]
        exact above
    · push Not at rest
      obtain ⟨c', positive', inRange', child', larger'⟩ := rest
      obtain ⟨d, deeper, dRange, value, under, -⟩ :=
        ih (by omega) positive' inRange' child' larger'
      rw [sunk] at value under
      refine ⟨d, below.trans deeper, dRange, value, under, ?_⟩
      rw [raised]
      exact above

/-- A sift-down leaves a heap only by moving nothing. -/
theorem isHeap_siftDown_iff {n : Nat} {val : Nat → β} {fuel index : Nat}
    (enough : n ≤ index + fuel) :
    IsHeap n (siftDown n val fuel index) ↔
      IsHeap n val ∧ ∀ c, 0 < c → c < n → parent c = index → val c ≤ val index := by
  by_cases settled : ∀ c, 0 < c → c < n → parent c = index → val c ≤ val index
  · rw [siftDown_stays fuel settled, and_iff_left settled]
  · constructor
    · intro heap
      push Not at settled
      obtain ⟨c, positive, inRange, child, larger⟩ := settled
      -- The value that sank now stands under a larger one.
      obtain ⟨d, below, dRange, value, under, -⟩ :=
        siftDown_sinks enough positive inRange child larger
      have order := heap d (by omega) dRange
      rw [value] at order
      exact absurd order under.not_ge
    · exact fun both => absurd both.2 settled

/-- After a sift-down from the root some other value is not above the root's. -/
theorem siftDown_root {n : Nat} (val : Nat → β) {fuel : Nat} (enough : n ≤ fuel) (two : 1 < n) :
    ∃ j, 0 < j ∧ j < n ∧ siftDown n val fuel 0 j ≤ siftDown n val fuel 0 0 := by
  by_cases settled : ∀ c, 0 < c → c < n → parent c = 0 → val c ≤ val 0
  · rw [siftDown_stays fuel settled]
    exact ⟨1, Nat.one_pos, two, settled 1 Nat.one_pos two rfl⟩
  · push Not at settled
    obtain ⟨c, positive, inRange, child, larger⟩ := settled
    have reach : n ≤ 0 + fuel := by omega
    obtain ⟨d, below, dRange, value, -, raised⟩ :=
      siftDown_sinks reach positive inRange child larger
    refine ⟨d, below, dRange, ?_⟩
    rw [value]
    exact raised.le

/-! ### One changed value -/

/-- A sift-up and then a sift-down from the same index. -/
def resift (n : Nat) (val : Nat → β) (index : Nat) : Nat → β :=
  siftDown n (siftUp val index index) (n - index) index

theorem resift_root {n : Nat} (val : Nat → β) (two : 1 < n) :
    ∃ j, 0 < j ∧ j < n ∧ resift n val 0 j ≤ resift n val 0 0 :=
  siftDown_root (siftUp val 0 0) (le_of_eq (Nat.sub_zero n).symm) two

/-- The value that a sift-up leaves at an index whose value becomes `e`. -/
def settledAt (val : Nat → β) (index : Nat) (e : β) : β :=
  if 0 < index ∧ e ≤ val (parent index) then val (parent index) else e

theorem le_settledAt (val : Nat → β) (index : Nat) (e : β) : e ≤ settledAt val index e := by
  rw [settledAt]
  split
  next moves => exact moves.2
  next => exact le_refl e

/-- A heap in which one value became no larger than the children below it. -/
theorem IsHeap.butFor {n : Nat} {val : Nat → β} (heap : IsHeap n val) {index : Nat}
    (inRange : index < n) {e : β}
    (lower : ∀ c, 0 < c → c < n → parent c = index → e ≤ val c) :
    HeapButFor n (Function.update val index e) index := by
  constructor
  · intro i positive iRange elsewhere
    rw [Function.update_of_ne elsewhere]
    -- Only the children of the changed index compare with the new value.
    by_cases child : parent i = index
    · rw [child, Function.update_self]
      exact lower i positive iRange child
    · rw [Function.update_of_ne child]
      exact heap i positive iRange
  · intro i positive iRange child indexPositive
    have below : index < i := child ▸ parent_lt positive
    rw [Function.update_of_ne (parent_lt indexPositive).ne, Function.update_of_ne below.ne']
    have order := heap i positive iRange
    rw [child] at order
    exact (heap index indexPositive inRange).trans order

/-- In a heap one value is changed and sifted up and then down. The result is a heap exactly
when every child of the changed index has the value that the sift-up leaves there. -/
theorem isHeap_resift_iff {n : Nat} {val : Nat → β} (heap : IsHeap n val) {index : Nat}
    (inRange : index < n) (e : β) :
    IsHeap n (resift n (Function.update val index e) index) ↔
      ∀ c, 0 < c → c < n → parent c = index → val c = settledAt val index e := by
  have start : siftUp (Function.update val index e) index index index = settledAt val index e := by
    rw [siftUp_start _ (le_refl index), settledAt, Function.update_self]
    by_cases positive : 0 < index
    · rw [Function.update_of_ne (parent_lt positive).ne]
    · simp [positive]
  have children : ∀ c, 0 < c → parent c = index →
      siftUp (Function.update val index e) index index c = val c := by
    intro c positive child
    have below : index < c := child ▸ parent_lt positive
    rw [siftUp_below _ _ _ below, Function.update_of_ne below.ne']
  rw [resift, isHeap_siftDown_iff (by omega), start]
  constructor
  -- A child may be neither lower after the sift-up nor higher before the sift-down.
  · rintro ⟨sifted, settled⟩ c positive cRange child
    have lower := sifted c positive cRange
    rw [child, start, children c positive child] at lower
    have upper := settled c positive cRange child
    rw [children c positive child] at upper
    exact le_antisymm upper lower
  · intro equal
    refine ⟨?_, fun c positive cRange child => ?_⟩
    · apply HeapButFor.isHeap_siftUp _ inRange (le_refl index)
      apply heap.butFor inRange
      intro c positive cRange child
      rw [equal c positive cRange child]
      exact le_settledAt val index e
    · rw [children c positive child, equal c positive cRange child]

end Foundation
