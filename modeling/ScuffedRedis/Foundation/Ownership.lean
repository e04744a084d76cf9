import Mathlib

/-!
# Places that own resources

Each place may hold a resource. `Owned` says that the resources in use are those that are held, and
each by one place. The lemmas are the things that may happen to a place: it takes a new resource, it
gives its resource back, or the resource goes to another place.
-/
namespace Foundation

variable {ρ : Type*} {places : List (Option ρ)} {place : Nat}

/-- What a place holds before and after it is written to. -/
theorem perm_reduceOption_set (inside : place < places.length) (held : Option ρ) :
    ((places.set place held).reduceOption ++ (places.getD place none).toList).Perm
      (places.reduceOption ++ held.toList) := by
  induction places generalizing place with
  | nil => cases inside
  | cons first rest ih =>
    cases place with
    | zero =>
      rw [List.set_cons_zero, List.getD_cons_zero]
      cases first <;> cases held <;>
        simp only [List.reduceOption_cons_of_some, List.reduceOption_cons_of_none,
          Option.toList_none, Option.toList_some, List.append_nil, List.Perm.refl]
      next => exact List.perm_append_singleton _ _ |>.symm
      next => exact List.perm_append_singleton _ _
      next old new =>
        exact ((List.perm_append_singleton _ _).cons _).trans
          ((List.Perm.swap _ _ _).trans ((List.perm_append_singleton _ _).symm.cons _))
    | succ place =>
      rw [List.set_cons_succ, List.getD_cons_succ]
      have later := ih (Nat.lt_of_succ_lt_succ inside)
      cases first with
      | none => rwa [List.reduceOption_cons_of_none, List.reduceOption_cons_of_none]
      | some first =>
        rw [List.reduceOption_cons_of_some, List.reduceOption_cons_of_some]
        exact later.cons first

theorem mem_reduceOption_of_getD {r : ρ} (held : places.getD place none = some r) :
    r ∈ places.reduceOption := by
  rw [List.reduceOption_mem_iff, ← held, List.getD_eq_getElem?_getD]
  cases found : places[place]? with
  | none =>
    rw [List.getD_eq_getElem?_getD, found] at held
    cases held
  | some other => exact List.mem_of_getElem? found

theorem inside_of_getD {r : ρ} (held : places.getD place none = some r) :
    place < places.length := by
  by_contra outside
  rw [List.getD_eq_default _ _ (Nat.le_of_not_lt outside)] at held
  cases held

/-- The resources in use are held, each in one place. -/
structure Owned (places : List (Option ρ)) (used : List ρ) : Prop where
  held : places.reduceOption.Perm used
  distinct : used.Nodup

namespace Owned

variable {used : List ρ} {r : ρ}

theorem nil : Owned ([] : List (Option ρ)) [] := ⟨.refl _, List.nodup_nil⟩

theorem mem (owned : Owned places used) (held : places.getD place none = some r) : r ∈ used :=
  owned.held.mem_iff.mp (mem_reduceOption_of_getD held)

/-- A place gives its resource back. -/
theorem release [DecidableEq ρ] (owned : Owned places used)
    (held : places.getD place none = some r) : Owned (places.set place none) (used.erase r) := by
  have written := perm_reduceOption_set (inside_of_getD held) none
  rw [held, Option.toList_some, Option.toList_none, List.append_nil] at written
  refine ⟨?_, owned.distinct.erase r⟩
  have before := ((List.perm_append_singleton r _).symm.trans written).trans owned.held
  exact List.cons_perm_iff_perm_erase.mp before |>.2

/-- An empty place is written to. -/
theorem fill (owned : Owned places used) (inside : place < places.length)
    (empty : places.getD place none = none) {held : Option ρ}
    (fresh : ∀ r, held = some r → r ∉ used) :
    Owned (places.set place held) (held.toList ++ used) := by
  have written := perm_reduceOption_set inside held
  rw [empty, Option.toList_none, List.append_nil] at written
  refine ⟨written.trans ((owned.held.append_right _).trans List.perm_append_comm), ?_⟩
  cases held with
  | none => exact owned.distinct
  | some r => exact List.nodup_cons.mpr ⟨fresh r rfl, owned.distinct⟩

/-- A new place. -/
theorem concat (owned : Owned places used) {held : Option ρ}
    (fresh : ∀ r, held = some r → r ∉ used) : Owned (places ++ [held]) (held.toList ++ used) := by
  refine ⟨?_, ?_⟩
  · rw [List.reduceOption_append]
    refine (owned.held.append_right _).trans ?_
    cases held with
    | none => exact (List.append_nil used).symm ▸ List.Perm.refl _
    | some r => exact List.perm_append_comm
  · cases held with
    | none => exact owned.distinct
    | some r => exact List.nodup_cons.mpr ⟨fresh r rfl, owned.distinct⟩

/-- A new place takes the resource of another. -/
theorem moveOut (owned : Owned places used) (source : Nat) :
    Owned (places.set source none ++ [places.getD source none]) used := by
  refine ⟨?_, owned.distinct⟩
  rw [List.reduceOption_append]
  refine List.Perm.trans ?_ owned.held
  rcases Nat.lt_or_ge source places.length with inside | outside
  · have written := perm_reduceOption_set inside (none : Option ρ)
    rw [Option.toList_none, List.append_nil] at written
    cases held : places.getD source none with
    | none =>
      rw [held, Option.toList_none] at written
      exact written
    | some r =>
      rw [held, Option.toList_some] at written
      exact written
  · rw [List.getD_eq_default _ _ outside, List.set_eq_of_length_le outside]
    exact (List.append_nil _).symm ▸ List.Perm.refl _

/-- An empty place takes the resource of another. -/
theorem moveOver {target : Nat} (owned : Owned places used) (source : Nat)
    (inside : target < places.length)
    (empty : places.getD target none = none) (other : target ≠ source) :
    Owned ((places.set target (places.getD source none)).set source none) used := by
  refine ⟨?_, owned.distinct⟩
  refine List.Perm.trans ?_ owned.held
  have first := perm_reduceOption_set inside (places.getD source none)
  rw [empty, Option.toList_none, List.append_nil] at first
  rcases Nat.lt_or_ge source places.length with inside' | outside
  · have second := perm_reduceOption_set
      (show source < (places.set target (places.getD source none)).length by
        rwa [List.length_set]) (none : Option ρ)
    have same : (places.set target (places.getD source none)).getD source none =
        places.getD source none := by
      rw [List.getD_eq_getElem?_getD, List.getElem?_set_ne other, ← List.getD_eq_getElem?_getD]
    rw [same, Option.toList_none, List.append_nil] at second
    -- Both sides have the moved resource, in one place or the other.
    exact (List.perm_append_right_iff _).mp (second.trans first)
  · have nothing := List.getD_eq_default places (none : Option ρ) outside
    rw [nothing, Option.toList_none, List.append_nil] at first
    rwa [nothing, List.set_eq_of_length_le (by rwa [List.length_set])]

end Owned
end Foundation
