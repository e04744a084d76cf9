import Mathlib

/-!
# Maps in order of insertion

A finite map that lists its entries in the order in which their keys came. Setting a key that is
there keeps its place. No two entries have the same key.
-/
namespace Foundation

structure InsertionMap (κ ν : Type) where
  entries : List (κ × ν)
  nodup : (entries.map Prod.fst).Nodup

namespace InsertionMap

variable {κ ν : Type} [DecidableEq κ]

def empty : InsertionMap κ ν := ⟨[], List.nodup_nil⟩

def keys (map : InsertionMap κ ν) : List κ := map.entries.map Prod.fst

def size (map : InsertionMap κ ν) : Nat := map.entries.length

def get? (map : InsertionMap κ ν) (key : κ) : Option ν := map.entries.lookup key

def delete (map : InsertionMap κ ν) (key : κ) : InsertionMap κ ν where
  entries := map.entries.filter fun entry => entry.1 ≠ key
  nodup := map.nodup.sublist (List.filter_sublist.map _)

/-- The entry with this key takes the new value. -/
private def replaced (key : κ) (value : ν) (entry : κ × ν) : κ × ν :=
  if entry.1 = key then (key, value) else entry

private theorem fst_replaced (key : κ) (value : ν) (entry : κ × ν) :
    (replaced key value entry).1 = entry.1 := by
  rw [replaced]
  split
  next same => exact same.symm
  next => rfl

def set (map : InsertionMap κ ν) (key : κ) (value : ν) : InsertionMap κ ν :=
  if present : key ∈ map.keys then
    { entries := map.entries.map (replaced key value)
      nodup := by
        rw [List.map_map]
        exact (List.map_congr_left fun entry _ => fst_replaced key value entry) ▸ map.nodup }
  else
    { entries := map.entries ++ [(key, value)]
      nodup := by
        rw [List.map_append]
        exact List.nodup_append'.mpr
          ⟨map.nodup, List.nodup_singleton _, List.disjoint_singleton.mpr present⟩ }

/-! ### Looking keys up -/

section Lookup

variable {map : InsertionMap κ ν} {key other : κ} {value : ν}

/-- The entries are the bindings. -/
theorem get?_eq_some : map.get? key = some value ↔ (key, value) ∈ map.entries := by
  obtain ⟨entries, nodup⟩ := map
  rw [get?]
  induction entries with
  | nil => simp
  | cons entry entries ih =>
    rw [List.map_cons, List.nodup_cons] at nodup
    obtain ⟨first, bound⟩ := entry
    rw [List.lookup_cons, List.mem_cons]
    by_cases same : key = first
    · -- The key stands in no later entry.
      subst same
      have absent : (key, value) ∉ entries := fun listed =>
        nodup.1 (List.mem_map.mpr ⟨_, listed, rfl⟩)
      simp [absent, eq_comm]
    · have apart : (key == first) = false := beq_eq_false_iff_ne.mpr same
      rw [apart, Prod.mk.injEq]
      simp only [same, false_and, false_or]
      exact ih nodup.2

theorem mem_keys : key ∈ map.keys ↔ ∃ value, map.get? key = some value := by
  simp only [keys, List.mem_map, get?_eq_some, Prod.exists, exists_and_right, exists_eq_right]

omit [DecidableEq κ] in
theorem length_keys (map : InsertionMap κ ν) : map.keys.length = map.size := List.length_map _

@[simp] theorem get?_empty (key : κ) : (empty : InsertionMap κ ν).get? key = none := rfl

theorem get?_delete :
    (map.delete key).get? other = if other = key then none else map.get? other := by
  apply Option.ext
  intro value
  rw [get?_eq_some, delete, List.mem_filter]
  by_cases same : other = key
  · simp [same]
  · simp [same, get?_eq_some]

theorem get?_set : (map.set key value).get? other =
    if other = key then some value else map.get? other := by
  apply Option.ext
  intro bound
  rw [get?_eq_some, set]
  by_cases present : key ∈ map.keys
  · rw [dif_pos present, List.mem_map]
    -- The entry of the key is the one that is replaced.
    obtain ⟨older, stored⟩ := mem_keys.mp present
    by_cases same : other = key
    · subst same
      rw [if_pos rfl, Option.some_inj]
      constructor
      · rintro ⟨entry, -, changed⟩
        rw [replaced] at changed
        split at changed
        next => exact (Prod.mk.inj changed).2
        next apart => exact absurd (congrArg Prod.fst changed) apart
      · rintro rfl
        exact ⟨(other, older), get?_eq_some.mp stored, if_pos rfl⟩
    · rw [if_neg same, get?_eq_some]
      constructor
      · rintro ⟨entry, listed, changed⟩
        rw [replaced] at changed
        split at changed
        next => exact absurd (Prod.mk.inj changed).1.symm same
        next => exact changed ▸ listed
      · intro listed
        exact ⟨(other, bound), listed, if_neg same⟩
  · rw [dif_neg present, List.mem_append, List.mem_singleton, Prod.mk.injEq]
    by_cases same : other = key
    · subst same
      have absent : (other, bound) ∉ map.entries := fun listed =>
        present (List.mem_map.mpr ⟨_, listed, rfl⟩)
      simp [absent, eq_comm]
    · simp [same, get?_eq_some]

end Lookup
end InsertionMap
end Foundation
