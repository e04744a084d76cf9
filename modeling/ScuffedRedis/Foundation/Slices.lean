import Mathlib

/-!
# Slices of a list

The elements between two positions, which may lie outside the list, and those from a position on.
-/
namespace Foundation

variable {α : Type}

/-- The elements between two positions, both included. -/
def slice (elements : List α) (first last : Int) : List α :=
  (elements.zipIdx.filter fun element => first ≤ element.2 ∧ element.2 ≤ last).map Prod.fst

theorem slice_map {β : Type} (f : α → β) (elements : List α) (first last : Int) :
    slice (elements.map f) first last = (slice elements first last).map f := by
  rw [slice, slice, List.zipIdx_map, List.filter_map, List.map_map, List.map_map]
  rfl

/-- Positions before the first one or behind the last one hold nothing. -/
theorem slice_congr {elements : List α} {first last first' last' : Int}
    (same : ∀ index : Nat, index < elements.length →
      ((first ≤ index ∧ index ≤ last) ↔ (first' ≤ index ∧ index ≤ last'))) :
    slice elements first last = slice elements first' last' := by
  rw [slice, slice]
  congr 1
  apply List.filter_congr
  intro element listed
  exact decide_eq_decide.mpr (same element.2 (by simpa using List.snd_lt_of_mem_zipIdx listed))

theorem slice_eq_nil {elements : List α} {first last : Int} (backwards : last < first) :
    slice elements first last = [] := by
  rw [slice, List.map_eq_nil_iff, List.filter_eq_nil_iff]
  intro element _
  rw [decide_eq_true_eq]
  omega

theorem slice_of_length_le {elements : List α} {first : Nat} {last : Int}
    (beyond : elements.length ≤ first) : slice elements first last = [] := by
  rw [slice, List.map_eq_nil_iff, List.filter_eq_nil_iff]
  intro element listed
  have := List.snd_lt_of_mem_zipIdx listed
  rw [decide_eq_true_eq]
  omega

/-- From a position inside the list on, the slice goes on with the element there. -/
theorem slice_cons {elements : List α} {index : Nat} {element : α} {last : Int}
    (here : elements[index]? = some element) (inside : index ≤ last) :
    slice elements index last = element :: slice elements (index + 1 : Nat) last := by
  obtain ⟨bound, rfl⟩ := List.getElem?_eq_some_iff.mp here
  have whole : elements.take index ++ elements[index] :: elements.drop (index + 1) = elements := by
    rw [← List.drop_eq_getElem_cons bound, List.take_append_drop]
  have length : (elements.take index).length = index := List.length_take_of_le bound.le
  -- Neither slice has anything from before the position, and they agree on what is after it.
  have former (first : Int) (above : (index : Int) ≤ first) :
      ((elements.take index).zipIdx.filter fun element => first ≤ element.2 ∧ element.2 ≤ last) =
        [] := by
    rw [List.filter_eq_nil_iff]
    intro element listed
    have := List.snd_lt_of_mem_zipIdx listed
    rw [decide_eq_true_eq]
    omega
  have later : (((elements.drop (index + 1)).zipIdx (index + 1)).filter fun element =>
        (index : Int) ≤ element.2 ∧ element.2 ≤ last) =
      ((elements.drop (index + 1)).zipIdx (index + 1)).filter fun element =>
        ((index + 1 : Nat) : Int) ≤ element.2 ∧ element.2 ≤ last := by
    apply List.filter_congr
    intro element listed
    have := List.le_snd_of_mem_zipIdx listed
    rw [decide_eq_decide]
    omega
  have kept : decide ((index : Int) ≤ index ∧ (index : Int) ≤ last) = true :=
    decide_eq_true ⟨le_refl _, inside⟩
  have dropped : ¬ decide (((index + 1 : Nat) : Int) ≤ index ∧ (index : Int) ≤ last) = true := by
    rw [decide_eq_true_eq]
    omega
  rw [slice, slice]
  nth_rewrite 1 3 [← whole]
  rw [List.zipIdx_append, List.filter_append, List.filter_append, former _ (le_refl _),
    former _ (by omega), List.zipIdx_cons, length, Nat.zero_add, List.filter_cons,
    List.filter_cons, if_pos kept, if_neg dropped, later]
  rfl

/-! ### Reversal -/

theorem slice_concat (elements : List α) (element : α) (first last : Int) :
    slice (elements ++ [element]) first last =
      slice elements first last ++
        if first ≤ elements.length ∧ (elements.length : Int) ≤ last then [element] else [] := by
  rw [slice, slice, List.zipIdx_append, List.filter_append, List.map_append]
  split <;> simp_all

/-- From a position that is not negative on, a slice is what is left of a front. -/
theorem slice_eq_drop_take (elements : List α) (first stop : Nat) :
    slice elements first (stop - 1) = (elements.take stop).drop first := by
  induction elements using List.reverseRecOn with
  | nil => simp [slice]
  | append_singleton elements element ih =>
    rw [slice_concat, ih]
    by_cases inside : elements.length < stop
    · have all : (elements ++ [element]).take stop = elements ++ [element] :=
        List.take_of_length_le (by simp; omega)
      have all' : elements.take stop = elements := List.take_of_length_le (by omega)
      rw [all, all']
      by_cases late : first ≤ elements.length
      · rw [if_pos (by omega), List.drop_append_of_le_length late]
      · rw [if_neg (by omega), List.drop_of_length_le (by omega),
        List.drop_of_length_le (by simp; omega)]
        rfl
    · rw [if_neg (by omega), List.append_nil, List.take_append_of_le_length (by omega)]

/-- A slice of the reversed list is the reverse of the slice at the mirrored positions. -/
theorem slice_reverse (elements : List α) {first stop : Nat} (inside : stop ≤ elements.length) :
    slice elements.reverse first (stop - 1) =
      (slice elements (elements.length - stop : Nat)
        ((elements.length - first : Nat) - 1)).reverse := by
  rw [slice_eq_drop_take, slice_eq_drop_take, List.take_reverse, List.drop_reverse, List.drop_take,
    List.length_drop]
  congr 2
  omega

/-- What a range has of a list of this length is nothing, or as far from one end of the list as
from the other. -/
def Centered (length : Nat) (first last : Int) : Prop :=
  min last (length - 1) < max first 0 ∨ max first 0 + min last (length - 1) = length - 1

/-- Without duplicates, the reverse of a slice is the slice of the reverse only for such a range. -/
theorem reverse_slice_eq_iff {elements : List α} (distinct : elements.Nodup) (first last : Int) :
    (slice elements first last).reverse = slice elements.reverse first last ↔
      Centered elements.length first last := by
  -- Only the part of the range inside the list matters: from `start` on, before `stop`.
  obtain ⟨start, here⟩ := Int.eq_ofNat_of_zero_le (le_max_right first 0)
  obtain ⟨stop, there⟩ : ∃ stop : Nat, stop ≤ elements.length ∧
      (min last (elements.length - 1) < (0 : Int) ∧ stop = 0 ∨
        (stop : Int) = min last (elements.length - 1) + 1) := by
    refine ⟨(min last (elements.length - 1) + 1).toNat, ?_, ?_⟩ <;> omega
  have clamp (others : List α) (length : others.length = elements.length) :
      slice others first last = slice others start (stop - 1) := by
    apply slice_congr
    intro index inside
    omega
  rw [clamp _ rfl, clamp _ List.length_reverse, slice_reverse elements there.1,
    List.reverse_inj, Centered]
  constructor
  · intro same
    by_contra apart
    -- The first elements are the same, so their positions are.
    have heads := congrArg (·[0]?) same
    simp only [slice_eq_drop_take, List.getElem?_drop, List.getElem?_take, Nat.add_zero] at heads
    rw [if_pos (by omega), if_pos (by omega)] at heads
    have bound : start < elements.length := by omega
    have equal : start = elements.length - stop := (List.getElem?_inj bound distinct).mp heads
    omega
  · rintro (empty | mirrored)
    · rw [slice_eq_nil (by omega), slice_eq_nil (by omega)]
    · apply slice_congr
      intro index inside
      omega

/-! ### The rest of a list from a position -/

section Rest

variable {elements rest : List α} {index : Nat} {element : α}

theorem getElem?_of_drop (here : elements.drop index = element :: rest) :
    elements[index]? = some element := by
  have head := congrArg (·[0]?) here
  simpa using head

theorem lt_of_drop (here : elements.drop index = element :: rest) : index < elements.length :=
  (List.getElem?_eq_some_iff.mp (getElem?_of_drop here)).1

theorem drop_succ (here : elements.drop index = element :: rest) :
    elements.drop (index + 1) = rest := by
  have tail := congrArg List.tail here
  simpa using tail

theorem drop_of_getElem? (here : elements[index]? = some element) :
    elements.drop index = element :: elements.drop (index + 1) := by
  obtain ⟨inside, same⟩ := List.getElem?_eq_some_iff.mp here
  rw [List.drop_eq_getElem_cons inside, same]

theorem exists_drop (inside : index < elements.length) :
    ∃ element rest, elements.drop index = element :: rest :=
  ⟨elements[index], elements.drop (index + 1), List.drop_eq_getElem_cons inside⟩

end Rest

end Foundation
