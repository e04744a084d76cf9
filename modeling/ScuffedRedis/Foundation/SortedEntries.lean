import Mathlib

/-!
# Sorted entries

Lists of keys with values, strictly sorted under a strict weak order of the keys. Two keys of
which neither is below the other are equivalent: a list has at most one entry of each class.
An insertion or erasure at one end of a split list happens in that part.
-/
namespace Foundation.SortedEntries

variable {K V : Type}

section Definitions

variable (below : K → K → Bool)

def Sorted (entries : List (K × V)) : Prop :=
  entries.Pairwise fun first second => below first.1 second.1 = true

/-- The value of an equivalent key is replaced, and its key kept. -/
def insert (key : K) (value : V) : List (K × V) → List (K × V)
  | [] => [(key, value)]
  | entry :: rest =>
    if below key entry.1 then (key, value) :: entry :: rest
    else if below entry.1 key then entry :: insert key value rest
    else (entry.1, value) :: rest

def erase (key : K) : List (K × V) → List (K × V)
  | [] => []
  | entry :: rest =>
    if below key entry.1 then entry :: rest
    else if below entry.1 key then entry :: erase key rest
    else rest

/-- Whether an equivalent key is listed. -/
def present (key : K) : List (K × V) → Bool
  | [] => false
  | entry :: rest =>
    if below key entry.1 then false
    else if below entry.1 key then present key rest
    else true

/-- Neither key is below the other. -/
def equivalent (first second : K) : Bool := !below first second && !below second first

end Definitions

variable {below : K → K → Bool} {key : K} {value : V} {entry : K × V}
    {left right rest : List (K × V)}

theorem sorted_append_cons [IsTrans K fun a b => below a b = true] :
    Sorted below (left ++ entry :: right) ↔
      Sorted below left ∧ Sorted below right ∧
        (∀ other ∈ left, below other.1 entry.1 = true) ∧
        ∀ other ∈ right, below entry.1 other.1 = true := by
  rw [Sorted, List.pairwise_append, List.pairwise_cons]
  constructor
  · rintro ⟨sortedLeft, ⟨above, sortedRight⟩, across⟩
    exact ⟨sortedLeft, sortedRight, fun other listed =>
      across other listed entry List.mem_cons_self,
      above⟩
  · rintro ⟨sortedLeft, sortedRight, under, above⟩
    refine ⟨sortedLeft, ⟨above, sortedRight⟩, fun first listed second listed' => ?_⟩
    rcases List.mem_cons.mp listed' with rfl | later
    · exact under first listed
    · exact trans_of (fun a b => below a b = true) (under first listed) (above second later)

/-! ### Splits -/

section Below

variable (lower : below key entry.1 = true)

include lower

theorem insert_append_of_below :
    insert below key value (left ++ entry :: right) =
      insert below key value left ++ entry :: right := by
  induction left with
  | nil => simp [insert, lower]
  | cons first left ih =>
    rw [List.cons_append, insert, insert, ih]
    split
    · rfl
    · split <;> rfl

theorem erase_append_of_below :
    erase below key (left ++ entry :: right) = erase below key left ++ entry :: right := by
  induction left with
  | nil => simp [erase, lower]
  | cons first left ih =>
    rw [List.cons_append, erase, erase, ih]
    split
    · rfl
    · split <;> rfl

theorem present_append_of_below :
    present below key (left ++ entry :: right) = present below key left := by
  induction left with
  | nil => simp [present, lower]
  | cons first left ih =>
    rw [List.cons_append, present, present, ih]

end Below

section Under

variable [IsStrictOrder K fun a b => below a b = true]
  (under : ∀ other ∈ left, below other.1 key = true)

include under

theorem insert_append_of_under :
    insert below key value (left ++ right) = left ++ insert below key value right := by
  induction left with
  | nil => rfl
  | cons first left ih =>
    rw [List.forall_mem_cons] at under
    have notBelow : ¬ below key first.1 = true := asymm_of (fun a b => below a b = true) under.1
    rw [List.cons_append, insert, if_neg notBelow, if_pos under.1, ih under.2, List.cons_append]

theorem erase_append_of_under :
    erase below key (left ++ right) = left ++ erase below key right := by
  induction left with
  | nil => rfl
  | cons first left ih =>
    rw [List.forall_mem_cons] at under
    have notBelow : ¬ below key first.1 = true := asymm_of (fun a b => below a b = true) under.1
    rw [List.cons_append, erase, if_neg notBelow, if_pos under.1, ih under.2, List.cons_append]

theorem present_append_of_under :
    present below key (left ++ right) = present below key right := by
  induction left with
  | nil => rfl
  | cons first left ih =>
    rw [List.forall_mem_cons] at under
    have notBelow : ¬ below key first.1 = true := asymm_of (fun a b => below a b = true) under.1
    rw [List.cons_append, present, if_neg notBelow, if_pos under.1, ih under.2]

end Under

section Above

variable [IsStrictOrder K fun a b => below a b = true]
  (under : ∀ other ∈ left, below other.1 entry.1 = true) (greater : below entry.1 key = true)

include under greater

theorem under_of_above : ∀ other ∈ left, below other.1 key = true := fun other listed =>
  trans_of (fun a b => below a b = true) (under other listed) greater

theorem insert_append_of_above :
    insert below key value (left ++ entry :: right) =
      left ++ entry :: insert below key value right := by
  have notBelow : ¬ below key entry.1 = true := asymm_of (fun a b => below a b = true) greater
  rw [insert_append_of_under (under_of_above under greater), insert, if_neg notBelow,
    if_pos greater]

theorem erase_append_of_above :
    erase below key (left ++ entry :: right) = left ++ entry :: erase below key right := by
  have notBelow : ¬ below key entry.1 = true := asymm_of (fun a b => below a b = true) greater
  rw [erase_append_of_under (under_of_above under greater), erase, if_neg notBelow,
    if_pos greater]

theorem present_append_of_above :
    present below key (left ++ entry :: right) = present below key right := by
  have notBelow : ¬ below key entry.1 = true := asymm_of (fun a b => below a b = true) greater
  rw [present_append_of_under (under_of_above under greater), present, if_neg notBelow,
    if_pos greater]

end Above

section Equivalent

variable [IsStrictWeakOrder K fun a b => below a b = true]

/-- What is below one of two equivalent keys is below the other. -/
theorem below_of_equivalent {first second third : K} (lower : below first second = true)
    (notBelow : ¬ below third second = true) (notAbove : ¬ below second third = true) :
    below first third = true := by
  by_contra notLower
  by_cases greater : below third first = true
  · exact notBelow (trans_of (fun a b => below a b = true) greater lower)
  · have weak : IsStrictWeakOrder K fun a b => below a b = true := inferInstance
    have equivalent :=
      weak.incomp_trans first third second ⟨notLower, greater⟩ ⟨notBelow, notAbove⟩
    exact equivalent.1 lower

variable (under : ∀ other ∈ left, below other.1 entry.1 = true)
  (notBelow : ¬ below key entry.1 = true) (notAbove : ¬ below entry.1 key = true)

include under notBelow notAbove

theorem under_of_equivalent : ∀ other ∈ left, below other.1 key = true := fun other listed =>
  below_of_equivalent (under other listed) notBelow notAbove

theorem insert_append_of_equivalent :
    insert below key value (left ++ entry :: right) = left ++ (entry.1, value) :: right := by
  rw [insert_append_of_under (under_of_equivalent under notBelow notAbove), insert, if_neg notBelow,
    if_neg notAbove]

theorem erase_append_of_equivalent :
    erase below key (left ++ entry :: right) = left ++ right := by
  rw [erase_append_of_under (under_of_equivalent under notBelow notAbove), erase, if_neg notBelow,
    if_neg notAbove]

theorem present_append_of_equivalent :
    present below key (left ++ entry :: right) = true := by
  rw [present_append_of_under (under_of_equivalent under notBelow notAbove), present,
    if_neg notBelow, if_neg notAbove]

end Equivalent

/-! ### Sortedness -/

theorem key_of_mem_insert {entries : List (K × V)} {other : K × V}
    (listed : other ∈ insert below key value entries) :
    other.1 = key ∨ ∃ entry ∈ entries, entry.1 = other.1 := by
  induction entries with
  | nil =>
    cases List.mem_singleton.mp listed
    exact .inl rfl
  | cons entry rest ih =>
    rw [insert] at listed
    split at listed
    · rcases List.mem_cons.mp listed with rfl | later
      · exact .inl rfl
      · exact .inr ⟨other, later, rfl⟩
    · split at listed
      · rcases List.mem_cons.mp listed with rfl | later
        · exact .inr ⟨other, List.mem_cons_self, rfl⟩
        · rcases ih later with new | ⟨old, listed, same⟩
          · exact .inl new
          · exact .inr ⟨old, List.mem_cons_of_mem _ listed, same⟩
      · rcases List.mem_cons.mp listed with rfl | later
        · exact .inr ⟨entry, List.mem_cons_self, rfl⟩
        · exact .inr ⟨other, List.mem_cons_of_mem _ later, rfl⟩

theorem sorted_insert [IsTrans K fun a b => below a b = true] {entries : List (K × V)}
    (sorted : Sorted below entries) (key : K) (value : V) :
    Sorted below (insert below key value entries) := by
  induction entries with
  | nil => exact List.pairwise_singleton _ _
  | cons entry rest ih =>
    obtain ⟨above, sortedRest⟩ := List.pairwise_cons.mp sorted
    rw [insert]
    split
    next lower =>
      refine List.pairwise_cons.mpr ⟨fun other listed => ?_, sorted⟩
      rcases List.mem_cons.mp listed with rfl | later
      · exact lower
      · exact trans_of (fun a b => below a b = true) lower (above other later)
    next =>
      split
      -- Deeper in the list the new key is above the head, and so is every old one.
      next greater =>
        refine List.pairwise_cons.mpr ⟨fun other listed => ?_, ih sortedRest⟩
        rcases key_of_mem_insert listed with new | ⟨old, listed, same⟩
        · rw [new]
          exact greater
        · rw [← same]
          exact above old listed
      next => exact List.pairwise_cons.mpr ⟨above, sortedRest⟩

theorem erase_sublist (key : K) (entries : List (K × V)) :
    (erase below key entries).Sublist entries := by
  induction entries with
  | nil => exact .slnil
  | cons entry rest ih =>
    rw [erase]
    split
    · exact .refl _
    · split
      · exact ih.cons_cons entry
      · exact List.sublist_cons_self entry rest

theorem sorted_erase {entries : List (K × V)} (sorted : Sorted below entries) (key : K) :
    Sorted below (erase below key entries) :=
  sorted.sublist (erase_sublist key entries)

/-! ### Lengths -/

theorem length_insert (key : K) (value : V) (entries : List (K × V)) :
    (insert below key value entries).length =
      entries.length + if present below key entries then 0 else 1 := by
  induction entries with
  | nil => rfl
  | cons entry rest ih =>
    rw [insert, present]
    split
    · rfl
    · split
      · rw [List.length_cons, List.length_cons, ih, Nat.add_right_comm]
      · rfl

theorem length_erase (key : K) (entries : List (K × V)) :
    (erase below key entries).length + (if present below key entries then 1 else 0) =
      entries.length := by
  induction entries with
  | nil => rfl
  | cons entry rest ih =>
    rw [erase, present]
    split
    · rfl
    · split
      · rw [List.length_cons, List.length_cons, ← ih, Nat.add_right_comm]
      · rfl

/-! ### Contents -/

theorem not_equivalent_of_below {first second : K} (lower : below first second = true) :
    equivalent below first second = false := by
  rw [equivalent, lower]
  rfl

theorem not_equivalent_of_above {first second : K} (greater : below second first = true) :
    equivalent below first second = false := by
  rw [equivalent, greater, Bool.not_true, Bool.and_false]

theorem equivalent_of_not_below {first second : K} (notBelow : ¬ below first second = true)
    (notAbove : ¬ below second first = true) : equivalent below first second = true := by
  rw [equivalent, Bool.eq_false_iff.mpr notBelow, Bool.eq_false_iff.mpr notAbove]
  rfl

/-- An entry of a new key is added to the others. -/
theorem insert_perm {entries : List (K × V)} (unlisted : present below key entries = false)
    (value : V) : (insert below key value entries).Perm ((key, value) :: entries) := by
  induction entries with
  | nil => exact .refl _
  | cons entry rest ih =>
    rw [present] at unlisted
    rw [insert]
    split
    · exact .refl _
    next notBelow =>
      rw [if_neg notBelow] at unlisted
      split
      next greater =>
        rw [if_pos greater] at unlisted
        -- The new entry goes past this one.
        exact ((ih unlisted).cons entry).trans (.swap _ _ _)
      next notAbove =>
        rw [if_neg notAbove] at unlisted
        exact absurd unlisted.symm Bool.false_ne_true

/-- Erasure takes away one entry of an equivalent key. -/
theorem erase_perm {entries : List (K × V)} (listed : present below key entries = true) :
    ∃ entry, equivalent below key entry.1 = true ∧
      entries.Perm (entry :: erase below key entries) := by
  induction entries with
  | nil => exact absurd listed Bool.false_ne_true
  | cons entry rest ih =>
    rw [present] at listed
    rw [erase]
    split
    next lower =>
      rw [if_pos lower] at listed
      exact absurd listed Bool.false_ne_true
    next notBelow =>
      rw [if_neg notBelow] at listed
      split
      next greater =>
        rw [if_pos greater] at listed
        obtain ⟨found, same, reordered⟩ := ih listed
        exact ⟨found, same, (reordered.cons entry).trans (.swap _ _ _)⟩
      next notAbove => exact ⟨entry, equivalent_of_not_below notBelow notAbove, .refl _⟩

/-! ### Equivalent keys -/

/-- A comparison of ranks in a linear order is a strict weak order of the keys. -/
theorem isStrictWeakOrder_of_rank {R : Type} [LinearOrder R] (rank : K → R)
    (ranked : ∀ first second, below first second = true ↔ rank first < rank second) :
    IsStrictWeakOrder K fun a b => below a b = true where
  irrefl := by
    simp only [ranked]
    exact fun _ => lt_irrefl _
  trans := by
    simp only [ranked]
    exact fun _ _ _ => lt_trans
  incomp_trans := by
    simp only [ranked, not_lt]
    rintro a b c ⟨upperAB, lowerAB⟩ ⟨upperBC, lowerBC⟩
    exact ⟨upperBC.trans upperAB, lowerAB.trans lowerBC⟩

theorem equivalent_iff_rank {R : Type} [LinearOrder R] {rank : K → R}
    (ranked : ∀ first second, below first second = true ↔ rank first < rank second)
    (first second : K) : equivalent below first second = true ↔ rank first = rank second := by
  rw [equivalent, Bool.and_eq_true, Bool.not_eq_true', Bool.not_eq_true', Bool.eq_false_iff,
    Bool.eq_false_iff, ne_eq, ne_eq, ranked, ranked, not_lt, not_lt]
  exact ⟨fun both => le_antisymm both.2 both.1, fun same => ⟨same.ge, same.le⟩⟩

section Equivalence

variable [IsStrictWeakOrder K fun a b => below a b = true] {entries : List (K × V)}

/-- The rest of a sorted list is above whatever is not above its head. -/
theorem below_of_not_above {other : K × V} (sorted : Sorted below (entry :: rest))
    (notAbove : ¬ below entry.1 key = true) (listed : other ∈ rest) :
    below key other.1 = true := by
  have above : below entry.1 other.1 = true := (List.pairwise_cons.mp sorted).1 other listed
  by_cases lower : below key entry.1 = true
  · exact trans_of (fun a b => below a b = true) lower above
  · by_contra notLower
    -- Otherwise both the key and the head would be equivalent to a key above the head.
    by_cases greater : below other.1 key = true
    · exact notAbove (trans_of (fun a b => below a b = true) above greater)
    · exact notAbove (below_of_equivalent above notLower greater)

/-- So nothing in it is equivalent. -/
theorem not_equivalent_of_not_above (sorted : Sorted below (entry :: rest))
    (notAbove : ¬ below entry.1 key = true) :
    ∀ other ∈ rest, equivalent below key other.1 = false := fun _ listed =>
  not_equivalent_of_below (below_of_not_above sorted notAbove listed)

theorem present_eq_any (sorted : Sorted below entries) (key : K) :
    present below key entries = entries.any fun entry => equivalent below key entry.1 := by
  induction entries with
  | nil => rfl
  | cons entry rest ih =>
    rw [present, List.any_cons]
    by_cases greater : below entry.1 key = true
    · rw [if_neg (asymm_of (fun a b => below a b = true) greater), if_pos greater,
        not_equivalent_of_above greater, Bool.false_or]
      exact ih (List.pairwise_cons.mp sorted).2
    · by_cases lower : below key entry.1 = true
      · rw [if_pos lower, not_equivalent_of_below lower, Bool.false_or]
        exact (List.any_eq_false.mpr fun other listed =>
          Bool.eq_false_iff.mp (not_equivalent_of_not_above sorted greater other listed)).symm
      · rw [if_neg lower, if_neg greater, equivalent_of_not_below lower greater, Bool.true_or]

/-- Erasure keeps exactly the entries of other keys. -/
theorem erase_eq_filter (sorted : Sorted below entries) (key : K) :
    erase below key entries = entries.filter fun entry => !equivalent below key entry.1 := by
  induction entries with
  | nil => rfl
  | cons entry rest ih =>
    rw [erase, List.filter_cons]
    by_cases greater : below entry.1 key = true
    · rw [if_neg (asymm_of (fun a b => below a b = true) greater), if_pos greater,
        not_equivalent_of_above greater, ih (List.pairwise_cons.mp sorted).2]
      rfl
    · -- Behind an entry that is not below the key, none is equivalent to it.
      have kept : (rest.filter fun other => !equivalent below key other.1) = rest := by
        refine List.filter_eq_self.mpr fun other listed => ?_
        rw [not_equivalent_of_not_above sorted greater other listed]
        rfl
      rw [kept]
      by_cases lower : below key entry.1 = true
      · rw [if_pos lower, not_equivalent_of_below lower]
        rfl
      · rw [if_neg lower, if_neg greater, equivalent_of_not_below lower greater]
        rfl

/-- An insertion at a listed key changes only the value there. -/
theorem insert_of_present (sorted : Sorted below entries)
    (listed : present below key entries = true) (value : V) :
    insert below key value entries =
      entries.map fun entry =>
        if equivalent below key entry.1 = true then (entry.1, value) else entry := by
  induction entries with
  | nil => exact absurd listed Bool.false_ne_true
  | cons entry rest ih =>
    rw [present] at listed
    rw [insert, List.map_cons]
    by_cases greater : below entry.1 key = true
    · have notLower : ¬ below key entry.1 = true := asymm_of (fun a b => below a b = true) greater
      rw [if_neg notLower, if_pos greater] at listed
      rw [if_neg notLower, if_pos greater, not_equivalent_of_above greater,
        ih (List.pairwise_cons.mp sorted).2 listed]
      rfl
    · by_cases lower : below key entry.1 = true
      · rw [if_pos lower] at listed
        exact absurd listed Bool.false_ne_true
      · rw [if_neg lower, if_neg greater, if_pos (equivalent_of_not_below lower greater)]
        congr 1
        -- The later entries are above the key and stay as they are.
        refine (List.map_congr_left fun other later => ?_).trans (List.map_id rest) |>.symm
        rw [not_equivalent_of_not_above sorted greater other later]
        rfl

/-- An insertion at a key that is not listed puts it between the lower and the higher ones. -/
theorem insert_of_absent (sorted : Sorted below entries)
    (unlisted : present below key entries = false) (value : V) :
    insert below key value entries =
      (entries.filter fun entry => below entry.1 key) ++
        (key, value) :: entries.filter fun entry => below key entry.1 := by
  induction entries with
  | nil => rfl
  | cons entry rest ih =>
    rw [present] at unlisted
    rw [insert, List.filter_cons, List.filter_cons]
    by_cases greater : below entry.1 key = true
    · have notLower : ¬ below key entry.1 = true := asymm_of (fun a b => below a b = true) greater
      rw [if_neg notLower, if_pos greater] at unlisted
      rw [if_neg notLower, if_pos greater, if_pos greater, if_neg notLower,
        ih (List.pairwise_cons.mp sorted).2 unlisted]
      rfl
    -- At the first entry that is not below the key, the rest is above the key.
    · by_cases lower : below key entry.1 = true
      · have above : ∀ other ∈ rest, below key other.1 = true := fun other listed =>
          below_of_not_above sorted greater listed
        have nothing : (rest.filter fun other => below other.1 key) = [] := by
          refine List.filter_eq_nil_iff.mpr fun other listed => ?_
          exact asymm_of (fun a b => below a b = true) (above other listed)
        rw [if_pos lower, if_neg greater, if_pos lower, nothing, List.filter_eq_self.mpr above]
        rfl
      · rw [if_neg lower, if_neg greater] at unlisted
        exact absurd unlisted.symm Bool.false_ne_true

end Equivalence

end Foundation.SortedEntries
