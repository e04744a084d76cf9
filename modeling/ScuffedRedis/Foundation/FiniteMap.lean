import Mathlib

/-!
# Lists of entries as finite maps

A store keeps its entries in some order, each with a key and a value. `Represents` says which
finite map it stands for; the lemmas say what adding, changing and removing one entry do to
that map.
-/
namespace Foundation

variable {α κ ν : Type*} [DecidableEq κ] {key : α → κ} {value : α → ν}

section Lookup

variable (m : Finmap fun _ : κ => ν) (k other : κ) (v : ν)

theorem lookup_insert_eq :
    (m.insert k v).lookup other = if k = other then some v else m.lookup other := by
  by_cases same : k = other
  · rw [if_pos same, same, Finmap.lookup_insert]
  · rw [if_neg same, Finmap.lookup_insert_of_ne _ (Ne.symm same)]

theorem lookup_erase_eq :
    (m.erase k).lookup other = if k = other then none else m.lookup other := by
  by_cases same : k = other
  · rw [if_pos same, same, Finmap.lookup_erase]
  · rw [if_neg same, Finmap.lookup_erase_ne (Ne.symm same)]

/-- A binding that is about to be overwritten may be erased first. -/
theorem insert_erase_self : (m.erase k).insert k v = m.insert k v := by
  apply Finmap.ext_lookup
  intro other
  rw [lookup_insert_eq, lookup_insert_eq, lookup_erase_eq]
  split <;> rfl

end Lookup

/-- Nothing is erased where nothing is bound. -/
theorem erase_of_lookup_eq_none {m : Finmap fun _ : κ => ν} {k : κ} (unbound : m.lookup k = none) :
    m.erase k = m := by
  apply Finmap.ext_lookup
  intro other
  rw [lookup_erase_eq]
  split
  next same => rw [← same, unbound]
  next => rfl

section Folds

variable (m : Finmap fun _ : κ => ν)

/-- Binds the keys of a list one after the other. -/
def insertAll (items : List (κ × ν)) : Finmap fun _ : κ => ν :=
  items.foldl (fun m item => m.insert item.1 item.2) m

def eraseAll (keys : List κ) : Finmap fun _ : κ => ν := keys.foldl (fun m k => m.erase k) m

/-- The last binding of a key in the list is the one that stays. -/
theorem lookup_insertAll [BEq κ] [LawfulBEq κ] (items : List (κ × ν)) (k : κ) :
    (insertAll m items).lookup k = (items.reverse.lookup k).or (m.lookup k) := by
  induction items generalizing m with
  | nil => simp [insertAll]
  | cons item rest ih =>
    have later : (insertAll m (item :: rest)).lookup k =
        (rest.reverse.lookup k).or ((m.insert item.1 item.2).lookup k) := ih _
    rw [later, lookup_insert_eq, List.reverse_cons, List.lookup_append, Option.or_assoc]
    by_cases same : item.1 = k
    · simp [same, List.lookup]
    · have other : (k == item.1) = false := beq_false_of_ne (Ne.symm same)
      simp [same, other, List.lookup]

theorem lookup_eraseAll [BEq κ] [LawfulBEq κ] (keys : List κ) (k : κ) :
    (eraseAll m keys).lookup k = if k ∈ keys then none else m.lookup k := by
  induction keys generalizing m with
  | nil => simp [eraseAll]
  | cons first rest ih =>
    have later : (eraseAll m (first :: rest)).lookup k =
        if k ∈ rest then none else (m.erase first).lookup k := ih _
    rw [later, lookup_erase_eq]
    by_cases same : first = k
    · simp [same]
    · simp [same, Ne.symm same]

theorem keys_insertAll (items : List (κ × ν)) :
    (insertAll m items).keys = (items.map Prod.fst).toFinset ∪ m.keys := by
  induction items generalizing m with
  | nil => simp [insertAll]
  | cons item rest ih =>
    have later : (insertAll m (item :: rest)).keys =
        (rest.map Prod.fst).toFinset ∪ (m.insert item.1 item.2).keys := ih _
    rw [later]
    ext k
    simp only [Finset.mem_union, Finmap.mem_keys, Finmap.mem_insert, List.map_cons,
      List.toFinset_cons, Finset.mem_insert]
    tauto

theorem keys_eraseAll (keys : List κ) : (eraseAll m keys).keys = m.keys \ keys.toFinset := by
  induction keys generalizing m with
  | nil => simp [eraseAll]
  | cons first rest ih =>
    have later : (eraseAll m (first :: rest)).keys = (m.erase first).keys \ rest.toFinset := ih _
    rw [later]
    ext k
    simp only [Finset.mem_sdiff, Finmap.mem_keys, Finmap.mem_erase, List.toFinset_cons,
      Finset.mem_insert]
    tauto

/-- As many keys are gained as the list has distinct ones that were not bound. -/
theorem card_keys_insertAll (items : List (κ × ν)) :
    (insertAll m items).keys.card =
      ((items.map Prod.fst).toFinset \ m.keys).card + m.keys.card := by
  rw [keys_insertAll, Finset.card_sdiff_add_card]

/-- As many keys are lost as the list has distinct ones that were bound. -/
theorem card_keys_eraseAll (keys : List κ) :
    (eraseAll m keys).keys.card + (keys.toFinset ∩ m.keys).card = m.keys.card := by
  rw [keys_eraseAll, Finset.inter_comm, Finset.card_sdiff_add_card_inter]

end Folds

/-- No two entries share a key, and the entries are the bindings of the map. -/
structure Represents (key : α → κ) (value : α → ν) (entries : List α)
    (m : Finmap fun _ : κ => ν) : Prop where
  distinct : (entries.map key).Nodup
  lookup : ∀ k v, m.lookup k = some v ↔ ∃ entry ∈ entries, key entry = k ∧ value entry = v

namespace Represents

variable {entries rest : List α} {entry : α} {m : Finmap fun _ : κ => ν}

theorem nil : Represents key value [] ∅ where
  distinct := List.nodup_nil
  lookup := by simp

theorem perm {other : List α} (represents : Represents key value entries m)
    (reordered : entries.Perm other) : Represents key value other m where
  distinct := (reordered.map key).nodup_iff.mp represents.distinct
  lookup k v := by
    rw [represents.lookup k v]
    simp only [reordered.mem_iff]

theorem lookup_key (represents : Represents key value entries m) (present : entry ∈ entries) :
    m.lookup (key entry) = some (value entry) :=
  (represents.lookup _ _).mpr ⟨entry, present, rfl, rfl⟩

theorem mem_iff (represents : Represents key value entries m) (k : κ) :
    k ∈ m ↔ ∃ entry ∈ entries, key entry = k := by
  rw [Finmap.mem_iff]
  constructor
  · rintro ⟨v, bound⟩
    obtain ⟨entry, present, named, -⟩ := (represents.lookup k v).mp bound
    exact ⟨entry, present, named⟩
  · rintro ⟨entry, present, rfl⟩
    exact ⟨value entry, represents.lookup_key present⟩

theorem lookup_eq_none (represents : Represents key value entries m) {k : κ}
    (absent : ∀ entry ∈ entries, key entry ≠ k) : m.lookup k = none := by
  rw [Finmap.lookup_eq_none, represents.mem_iff]
  rintro ⟨entry, present, named⟩
  exact absent entry present named

/-- An entry with a new key is a new binding. -/
theorem insert_new (represents : Represents key value entries m) (entry : α)
    (fresh : ∀ other ∈ entries, key other ≠ key entry) :
    Represents key value (entry :: entries) (m.insert (key entry) (value entry)) where
  distinct := by
    rw [List.map_cons, List.nodup_cons, List.mem_map]
    refine ⟨?_, represents.distinct⟩
    rintro ⟨other, present, same⟩
    exact fresh other present same
  lookup k v := by
    by_cases same : k = key entry
    -- The new key is bound by the new entry alone, and every other key as before.
    · subst same
      rw [Finmap.lookup_insert]
      constructor
      · rintro ⟨⟩
        exact ⟨entry, List.mem_cons_self, rfl, rfl⟩
      · rintro ⟨other, present, named, rfl⟩
        rcases List.mem_cons.mp present with rfl | older
        · rfl
        · exact absurd named (fresh other older)
    · rw [Finmap.lookup_insert_of_ne _ same, represents.lookup k v]
      constructor
      · rintro ⟨other, present, named⟩
        exact ⟨other, List.mem_cons_of_mem _ present, named⟩
      · rintro ⟨other, present, named, valued⟩
        rcases List.mem_cons.mp present with rfl | older
        · exact absurd named.symm same
        · exact ⟨other, older, named, valued⟩

theorem key_ne (represents : Represents key value (entry :: rest) m) :
    ∀ other ∈ rest, key other ≠ key entry := by
  have distinct := represents.distinct
  rw [List.map_cons, List.nodup_cons, List.mem_map] at distinct
  intro other present same
  exact distinct.1 ⟨other, present, same⟩

theorem erase (represents : Represents key value (entry :: rest) m) :
    Represents key value rest (m.erase (key entry)) where
  distinct := by
    have distinct := represents.distinct
    rw [List.map_cons, List.nodup_cons] at distinct
    exact distinct.2
  lookup k v := by
    by_cases same : k = key entry
    · subst same
      rw [Finmap.lookup_erase]
      constructor
      · rintro ⟨⟩
      · rintro ⟨other, present, named, -⟩
        exact absurd named (represents.key_ne other present)
    · rw [Finmap.lookup_erase_ne same, represents.lookup k v]
      constructor
      · rintro ⟨other, present, named, valued⟩
        rcases List.mem_cons.mp present with rfl | older
        · exact absurd named.symm same
        · exact ⟨other, older, named, valued⟩
      · rintro ⟨other, present, named⟩
        exact ⟨other, List.mem_cons_of_mem _ present, named⟩

/-- The entries of the other keys. -/
theorem filter_ne (represents : Represents key value entries m) (k : κ) :
    Represents key value (entries.filter fun entry => key entry ≠ k) (m.erase k) where
  distinct := represents.distinct.sublist (List.filter_sublist.map key)
  lookup other v := by
    simp only [List.mem_filter, decide_eq_true_eq]
    by_cases same : other = k
    · subst same
      rw [Finmap.lookup_erase]
      constructor
      · rintro ⟨⟩
      · rintro ⟨entry, ⟨-, apart⟩, named, -⟩
        exact absurd named apart
    · rw [Finmap.lookup_erase_ne same, represents.lookup other v]
      constructor
      · rintro ⟨entry, present, rfl, valued⟩
        exact ⟨entry, ⟨present, same⟩, rfl, valued⟩
      · rintro ⟨entry, ⟨present, -⟩, named⟩
        exact ⟨entry, present, named⟩

theorem update (represents : Represents key value (entry :: rest) m) (changed : α)
    (sameKey : key changed = key entry) :
    Represents key value (changed :: rest) (m.insert (key entry) (value changed)) := by
  rw [← insert_erase_self, ← sameKey]
  have sameRest : Represents key value rest (m.erase (key changed)) := by
    rw [sameKey]
    exact represents.erase
  apply sameRest.insert_new
  rw [sameKey]
  exact represents.key_ne

/-- The same entries in another form. -/
theorem map_iff {β : Type*} (form : β → α) {entries : List β} :
    Represents key value (entries.map form) m ↔
      Represents (fun entry => key (form entry)) (fun entry => value (form entry)) entries m := by
  have same (k : κ) (v : ν) : (∃ entry ∈ entries.map form, key entry = k ∧ value entry = v) ↔
      ∃ entry ∈ entries, key (form entry) = k ∧ value (form entry) = v := by
    simp only [List.mem_map, exists_exists_and_eq_and]
  constructor
  · rintro ⟨distinct, lookup⟩
    rw [List.map_map] at distinct
    exact ⟨distinct, fun k v => (lookup k v).trans (same k v)⟩
  · rintro ⟨distinct, lookup⟩
    refine ⟨?_, fun k v => (lookup k v).trans (same k v).symm⟩
    rw [List.map_map]
    exact distinct

theorem keys_eq (represents : Represents key value entries m) :
    m.keys = (entries.map key).toFinset := by
  ext k
  rw [Finmap.mem_keys, represents.mem_iff, List.mem_toFinset, List.mem_map]

theorem card_keys (represents : Represents key value entries m) :
    m.keys.card = entries.length := by
  rw [represents.keys_eq, List.toFinset_card_of_nodup represents.distinct, List.length_map]

end Represents
end Foundation
