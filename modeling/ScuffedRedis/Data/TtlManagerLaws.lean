import ScuffedRedis.Data.TtlManager

/-!
# The heap and its maps

The maps are the exact inverse of the heap array. Every exchange keeps this, so the two heap
loops do, and an index read from the map is always inside the heap.
-/
namespace ScuffedRedis

/-- Time points are ordered as their counts. -/
instance int64LinearOrder : LinearOrder Int64 where
  le_refl := Int64.le_refl
  le_trans _ _ _ := Int64.le_trans
  le_antisymm _ _ := Int64.le_antisymm
  le_total := Int64.le_total
  lt_iff_le_not_ge a b := by
    rw [Int64.not_le]
    exact ⟨fun less => ⟨Int64.le_of_lt less, less⟩, And.right⟩
  toDecidableLE := inferInstance

namespace TTLManager

open Foundation

/-- The maps know exactly the keys of the heap, with their index and their entry's id. -/
structure Coupled (manager : TTLManager) : Prop where
  indexed : ∀ key i, manager.keyToIndex key = some i ↔
    manager.expirationHeap[i]?.map TTLEntry.key = some key
  identified : ∀ key, manager.keyToId key =
    (manager.keyToIndex key).bind fun i => manager.expirationHeap[i]?.map TTLEntry.id

theorem Coupled.initial : Coupled initial where
  indexed key i := by simp [TTLManager.initial]
  identified key := rfl

section Index

variable {manager : TTLManager} (coupled : Coupled manager)
include coupled

/-- The entry at an index from the map is in the heap and has the key. -/
theorem Coupled.entry {key : Bytes} {i : Nat} (found : manager.keyToIndex key = some i) :
    ∃ entry, manager.expirationHeap[i]? = some entry ∧ entry.key = key :=
  Option.map_eq_some_iff.mp ((coupled.indexed key i).mp found)

theorem Coupled.index_lt {key : Bytes} {i : Nat} (found : manager.keyToIndex key = some i) :
    i < manager.expirationHeap.length := by
  obtain ⟨entry, present, -⟩ := coupled.entry found
  exact (List.getElem?_eq_some_iff.mp present).1

/-- No two keys share an index. -/
theorem Coupled.key_eq {key other : Bytes} {i : Nat} (found : manager.keyToIndex key = some i)
    (found' : manager.keyToIndex other = some i) : key = other := by
  rw [coupled.indexed] at found found'
  exact Option.some.inj (found.symm.trans found')

theorem Coupled.index_of {entry : TTLEntry} {i : Nat}
    (present : manager.expirationHeap[i]? = some entry) :
    manager.keyToIndex entry.key = some i := by
  rw [coupled.indexed, present]
  rfl

end Index

/-! ### Exchanges -/

/-- What an exchange does, with the maps following the entries. -/
structure Exchanged (manager other : TTLManager) (i j : Nat) : Prop where
  entries : ∀ k, other.expirationHeap[k]? = manager.expirationHeap[Equiv.swap i j k]?
  index : Coupled manager →
    ∀ key, other.keyToIndex key = (manager.keyToIndex key).map (Equiv.swap i j)

/-- The same entries in another order, with everything else as it was. -/
structure Rearranged (manager other : TTLManager) : Prop where
  perm : other.expirationHeap.Perm manager.expirationHeap
  keyToId : other.keyToId = manager.keyToId
  nextId : other.nextId = manager.nextId
  totalExpired : other.totalExpired = manager.totalExpired
  mutexHeld : other.mutexHeld = manager.mutexHeld
  coupled : Coupled manager → Coupled other

theorem Rearranged.refl (manager : TTLManager) : Rearranged manager manager :=
  ⟨List.Perm.refl _, rfl, rfl, rfl, rfl, id⟩

theorem Rearranged.trans {first second third : TTLManager} (front : Rearranged first second)
    (back : Rearranged second third) : Rearranged first third :=
  ⟨back.perm.trans front.perm, back.keyToId.trans front.keyToId, back.nextId.trans front.nextId,
    back.totalExpired.trans front.totalExpired, back.mutexHeld.trans front.mutexHeld,
    back.coupled ∘ front.coupled⟩

theorem Rearranged.length_eq {manager other : TTLManager} (same : Rearranged manager other) :
    other.expirationHeap.length = manager.expirationHeap.length := same.perm.length_eq

section Swap

variable {manager : TTLManager} {i j : Nat}

/-- The list after the exchange of two entries. -/
theorem getElem?_set_set {heap : List TTLEntry} {first second : TTLEntry}
    (atI : heap[i]? = some first) (atJ : heap[j]? = some second) (k : Nat) :
    ((heap.set i second).set j first)[k]? = heap[Equiv.swap i j k]? := by
  have iRange := (List.getElem?_eq_some_iff.mp atI).1
  have jRange := (List.getElem?_eq_some_iff.mp atJ).1
  rw [List.getElem?_set, List.getElem?_set, List.length_set]
  by_cases right : j = k
  · subst right
    rw [if_pos rfl, if_pos jRange, Equiv.swap_apply_right, atI]
  rw [if_neg right]
  by_cases left : i = k
  · subst left
    rw [if_pos rfl, if_pos iRange, Equiv.swap_apply_left, atJ]
  · rw [if_neg left, Equiv.swap_apply_of_ne_of_ne (Ne.symm left) (Ne.symm right)]

theorem swapEntries_eq {first second : TTLEntry} (different : i ≠ j)
    (atI : manager.expirationHeap[i]? = some first)
    (atJ : manager.expirationHeap[j]? = some second) :
    manager.swapEntries i j =
      { manager with
        expirationHeap := (manager.expirationHeap.set i second).set j first
        keyToIndex := Function.update (Function.update manager.keyToIndex second.key (some i))
          first.key (some j) } := by
  rw [swapEntries, if_neg different, atI, atJ]

/-- The new index map, when the old one was right. -/
theorem update_update_eq_map (coupled : Coupled manager) {first second : TTLEntry}
    (atI : manager.expirationHeap[i]? = some first)
    (atJ : manager.expirationHeap[j]? = some second) (key : Bytes) :
    Function.update (Function.update manager.keyToIndex second.key (some i))
        first.key (some j) key =
      (manager.keyToIndex key).map (Equiv.swap i j) := by
  by_cases isFirst : key = first.key
  · rw [isFirst, Function.update_self, coupled.index_of atI, Option.map_some,
      Equiv.swap_apply_left]
  rw [Function.update_of_ne isFirst]
  by_cases isSecond : key = second.key
  · rw [isSecond, Function.update_self, coupled.index_of atJ, Option.map_some,
      Equiv.swap_apply_right]
  rw [Function.update_of_ne isSecond]
  cases found : manager.keyToIndex key with
  | none => rfl
  | some k =>
    -- The indices of the two exchanged entries belong to their own keys.
    have notI : k ≠ i := by
      rintro rfl
      exact isFirst (coupled.key_eq found (coupled.index_of atI))
    have notJ : k ≠ j := by
      rintro rfl
      exact isSecond (coupled.key_eq found (coupled.index_of atJ))
    rw [Option.map_some, Equiv.swap_apply_of_ne_of_ne notI notJ]

theorem swapEntries_exchanged (iRange : i < manager.expirationHeap.length)
    (jRange : j < manager.expirationHeap.length) :
    Exchanged manager (manager.swapEntries i j) i j := by
  by_cases same : i = j
  · subst same
    rw [swapEntries, if_pos rfl]
    constructor
    · intro k
      rw [Equiv.swap_self, Equiv.refl_apply]
    · intro _ key
      rw [Equiv.swap_self]
      exact Option.map_id'.symm
  · have atI := List.getElem?_eq_getElem iRange
    have atJ := List.getElem?_eq_getElem jRange
    rw [swapEntries_eq same atI atJ]
    exact ⟨getElem?_set_set atI atJ, fun coupled => update_update_eq_map coupled atI atJ⟩

theorem Exchanged.coupled {other : TTLManager} (exchanged : Exchanged manager other i j)
    (sameIds : other.keyToId = manager.keyToId) (coupled : Coupled manager) : Coupled other := by
  have index := exchanged.index coupled
  -- The exchange is its own inverse, so the maps follow the entries both ways.
  constructor
  · intro key k
    rw [index, exchanged.entries, ← coupled.indexed, Option.map_eq_some_iff]
    constructor
    · rintro ⟨k, found, rfl⟩
      rw [found, Equiv.swap_apply_self]
    · intro found
      exact ⟨_, found, Equiv.swap_apply_self i j k⟩
  · intro key
    rw [sameIds, index, coupled.identified]
    cases manager.keyToIndex key with
    | none => rfl
    | some k => rw [Option.map_some, Option.bind_some, Option.bind_some, exchanged.entries,
        Equiv.swap_apply_self]

theorem swapEntries_rearranged (iRange : i < manager.expirationHeap.length)
    (jRange : j < manager.expirationHeap.length) :
    Rearranged manager (manager.swapEntries i j) := by
  have exchanged := swapEntries_exchanged iRange jRange
  have sameIds : (manager.swapEntries i j).keyToId = manager.keyToId := by
    rw [swapEntries]
    split
    · rfl
    · split <;> rfl
  refine ⟨?_, sameIds, ?_, ?_, ?_, exchanged.coupled sameIds⟩
  · by_cases same : i = j
    · rw [swapEntries, if_pos same]
    · rw [swapEntries, if_neg same, List.getElem?_eq_getElem iRange,
      List.getElem?_eq_getElem jRange]
      exact List.set_set_perm iRange jRange
  all_goals
    rw [swapEntries]
    split
    · rfl
    · split <;> rfl

end Swap

/-! ### The heap loops -/

theorem expiryAt_swapEntries {manager : TTLManager} {i j : Nat}
    (iRange : i < manager.expirationHeap.length) (jRange : j < manager.expirationHeap.length) :
    expiryAt (manager.swapEntries i j).expirationHeap =
      exchange (expiryAt manager.expirationHeap) i j := by
  funext k
  rw [expiryAt, (swapEntries_exchanged iRange jRange).entries]
  rfl

/-- `heapify_up` is a sift-up of the expiry times. -/
theorem heapifyUpLoop_spec (fuel : Nat) (manager : TTLManager) (index : Nat)
    (inRange : index < manager.expirationHeap.length) :
    Rearranged manager (heapifyUpLoop fuel manager index) ∧
      expiryAt (heapifyUpLoop fuel manager index).expirationHeap =
        siftUp (expiryAt manager.expirationHeap) fuel index := by
  -- The loop makes the comparisons of the sift, so both take the same way up.
  induction fuel generalizing manager index with
  | zero => exact ⟨.refl manager, rfl⟩
  | succ fuel ih =>
    rw [heapifyUpLoop, siftUp]
    by_cases root : index = 0
    · rw [if_pos root, if_pos root]
      exact ⟨.refl manager, rfl⟩
    rw [if_neg root, if_neg root]
    by_cases larger : expiryAt manager.expirationHeap index >
        expiryAt manager.expirationHeap (parent index)
    · rw [if_pos larger, if_pos larger]
      exact ⟨.refl manager, rfl⟩
    rw [if_neg larger, if_neg larger]
    have parentRange := (parent_lt (Nat.pos_of_ne_zero root)).trans inRange
    have swapped := swapEntries_rearranged inRange parentRange
    obtain ⟨rearranged, sifted⟩ := ih _ _ (by rw [swapped.length_eq]; exact parentRange)
    rw [sifted, expiryAt_swapEntries inRange parentRange]
    exact ⟨swapped.trans rearranged, rfl⟩

theorem smallest_eq (heap : List TTLEntry) (index : Nat) :
    smallest heap index = risingChild heap.length (expiryAt heap) index := by
  simp only [smallest, risingChild]
  split_ifs <;> rfl

/-- `heapify_down` is the sift-down in which later expiry times rise. -/
theorem heapifyDownLoop_spec (fuel : Nat) (manager : TTLManager) (index : Nat) :
    Rearranged manager (heapifyDownLoop fuel manager index) ∧
      expiryAt (heapifyDownLoop fuel manager index).expirationHeap =
        siftDown manager.expirationHeap.length (expiryAt manager.expirationHeap) fuel index := by
  induction fuel generalizing manager index with
  | zero => exact ⟨.refl manager, rfl⟩
  | succ fuel ih =>
    have chosen := smallest_eq manager.expirationHeap index
    rw [heapifyDownLoop, siftDown, ← chosen]
    -- Either the node itself is chosen, and both stop, or a child that is in the heap.
    rcases risingChild_cases manager.expirationHeap.length (expiryAt manager.expirationHeap) index
      with ⟨same, -⟩ | ⟨childRange, below, -, -⟩
    · rw [← chosen] at same
      rw [if_pos same, if_pos same]
      exact ⟨.refl manager, rfl⟩
    · rw [← chosen] at childRange below
      have inRange := below.trans childRange
      have swapped := swapEntries_rearranged inRange childRange
      obtain ⟨rearranged, sifted⟩ := ih (manager.swapEntries index (smallest _ index))
        (smallest manager.expirationHeap index)
      rw [if_neg below.ne', if_neg below.ne', sifted, expiryAt_swapEntries inRange childRange,
        swapped.length_eq]
      exact ⟨swapped.trans rearranged, rfl⟩

theorem heapifyUp_heapifyDown_spec (manager : TTLManager) (index : Nat)
    (inRange : index < manager.expirationHeap.length) :
    Rearranged manager ((manager.heapifyUp index).heapifyDown index) ∧
      expiryAt ((manager.heapifyUp index).heapifyDown index).expirationHeap =
        resift manager.expirationHeap.length (expiryAt manager.expirationHeap) index := by
  obtain ⟨up, siftedUp⟩ := heapifyUpLoop_spec index manager index inRange
  obtain ⟨down, siftedDown⟩ := heapifyDownLoop_spec
    ((manager.heapifyUp index).expirationHeap.length - index) (manager.heapifyUp index) index
  refine ⟨up.trans down, ?_⟩
  rw [heapifyDown, siftedDown, heapifyUp, siftedUp, up.length_eq, resift]

/-! ### Removal -/

section Pop

variable {manager : TTLManager} {removed : TTLEntry}

theorem popEntry_eq (last : manager.expirationHeap.getLast? = some removed) :
    manager.popEntry =
      { manager with
        expirationHeap := manager.expirationHeap.dropLast
        keyToIndex := Function.update manager.keyToIndex removed.key none
        keyToId := Function.update manager.keyToId removed.key none } := by
  rw [popEntry, last]

theorem popEntry_coupled (coupled : Coupled manager)
    (last : manager.expirationHeap.getLast? = some removed) : Coupled manager.popEntry := by
  rw [popEntry_eq last]
  rw [List.getLast?_eq_getElem?] at last
  have lastIndex := coupled.index_of last
  have bound := coupled.index_lt lastIndex
  -- Only the popped key is at the last index.
  have others : ∀ key i, key ≠ removed.key → manager.keyToIndex key = some i →
      i < manager.expirationHeap.length - 1 := by
    intro key i different found
    have inRange := coupled.index_lt found
    by_contra beyond
    obtain rfl : i = manager.expirationHeap.length - 1 := by omega
    exact different (coupled.key_eq found lastIndex)
  constructor
  · intro key i
    dsimp only
    rw [List.getElem?_dropLast]
    by_cases same : key = removed.key
    · rw [same, Function.update_self]
      constructor
      · rintro ⟨⟩
      · intro found
        split at found
        next inRange =>
          rw [← coupled.indexed, lastIndex, Option.some_inj] at found
          omega
        next => cases found
    · rw [Function.update_of_ne same]
      constructor
      · intro found
        rw [if_pos (others key i same found), ← coupled.indexed]
        exact found
      · intro found
        split at found
        next => exact (coupled.indexed key i).mpr found
        next => cases found
  · intro key
    dsimp only
    by_cases same : key = removed.key
    · rw [same, Function.update_self, Function.update_self]
      rfl
    · rw [Function.update_of_ne same, Function.update_of_ne same, coupled.identified]
      cases found : manager.keyToIndex key with
      | none => rfl
      | some i =>
        rw [Option.bind_some, Option.bind_some, List.getElem?_dropLast,
          if_pos (others key i same found)]

end Pop

/-- One entry is gone, in whatever order the others now stand. -/
structure Removed (manager other : TTLManager) (entry : TTLEntry) : Prop where
  perm : manager.expirationHeap.Perm (entry :: other.expirationHeap)
  nextId : other.nextId = manager.nextId
  totalExpired : other.totalExpired = manager.totalExpired
  mutexHeld : other.mutexHeld = manager.mutexHeld
  coupled : Coupled other

theorem Removed.length_eq {manager other : TTLManager} {entry : TTLEntry}
    (removed : Removed manager other entry) :
    manager.expirationHeap.length = other.expirationHeap.length + 1 := removed.perm.length_eq

theorem popEntry_removed {manager : TTLManager} {entry : TTLEntry} (coupled : Coupled manager)
    (last : manager.expirationHeap.getLast? = some entry) :
    Removed manager manager.popEntry entry := by
  have afterPop := popEntry_coupled coupled last
  rw [popEntry_eq last] at afterPop ⊢
  refine ⟨?_, rfl, rfl, rfl, afterPop⟩
  obtain ⟨front, split⟩ := List.getLast?_eq_some_iff.mp last
  rw [split, List.dropLast_concat]
  exact List.perm_append_singleton entry front

section Remove

variable {manager : TTLManager} {index : Nat} {entry : TTLEntry}

/-- The entry at an index, exchanged with the last one and popped. -/
theorem swap_popEntry_removed (coupled : Coupled manager)
    (present : manager.expirationHeap[index]? = some entry) :
    Removed manager (manager.swapEntries index (manager.expirationHeap.length - 1)).popEntry
      entry := by
  have inRange := (List.getElem?_eq_some_iff.mp present).1
  have lastRange : manager.expirationHeap.length - 1 < manager.expirationHeap.length := by omega
  have swapped := swapEntries_rearranged inRange lastRange
  have last : (manager.swapEntries index
      (manager.expirationHeap.length - 1)).expirationHeap.getLast? = some entry := by
    rw [List.getLast?_eq_getElem?, swapped.length_eq,
      (swapEntries_exchanged inRange lastRange).entries, Equiv.swap_apply_right, present]
  have popped := popEntry_removed (swapped.coupled coupled) last
  exact ⟨swapped.perm.symm.trans popped.perm, popped.nextId.trans swapped.nextId,
    popped.totalExpired.trans swapped.totalExpired, popped.mutexHeld.trans swapped.mutexHeld,
    popped.coupled⟩

/-- The expiry times after that: the last one stands at the index. -/
theorem expiryAt_swap_popEntry
    (present : manager.expirationHeap[index]? = some entry)
    (notLast : index ≠ manager.expirationHeap.length - 1) :
    expiryAt (manager.swapEntries index
        (manager.expirationHeap.length - 1)).popEntry.expirationHeap =
      Function.update (expiryAt manager.expirationHeap.dropLast) index
        (expiryAt manager.expirationHeap (manager.expirationHeap.length - 1)) := by
  have inRange := (List.getElem?_eq_some_iff.mp present).1
  have lastRange : manager.expirationHeap.length - 1 < manager.expirationHeap.length := by omega
  have swapped := swapEntries_rearranged inRange lastRange
  have entries := (swapEntries_exchanged inRange lastRange).entries
  have last : (manager.swapEntries index
      (manager.expirationHeap.length - 1)).expirationHeap.getLast? = some entry := by
    rw [List.getLast?_eq_getElem?, swapped.length_eq, entries, Equiv.swap_apply_right, present]
  rw [popEntry_eq last]
  funext k
  -- Before the last index only the exchanged one has a new value.
  rw [expiryAt, List.getElem?_dropLast, swapped.length_eq]
  by_cases atIndex : k = index
  · rw [atIndex, Function.update_self, if_pos (by omega), entries, Equiv.swap_apply_left, expiryAt]
  · rw [Function.update_of_ne atIndex, expiryAt, List.getElem?_dropLast]
    by_cases below : k < manager.expirationHeap.length - 1
    · rw [if_pos below, if_pos below, entries, Equiv.swap_apply_of_ne_of_ne atIndex below.ne]
    · rw [if_neg below, if_neg below]

/-- What `remove_from_heap` does to the expiry times. -/
def removedExpiry (heap : List TTLEntry) (index : Nat) : Nat → Int64 :=
  if index = heap.length - 1 then expiryAt heap.dropLast
  else
    resift (heap.length - 1)
      (Function.update (expiryAt heap.dropLast) index (expiryAt heap (heap.length - 1))) index

theorem removeFromHeap_spec (coupled : Coupled manager)
    (present : manager.expirationHeap[index]? = some entry) :
    Removed manager (manager.removeFromHeap index) entry ∧
      expiryAt (manager.removeFromHeap index).expirationHeap =
        removedExpiry manager.expirationHeap index := by
  have inRange := (List.getElem?_eq_some_iff.mp present).1
  rw [removeFromHeap, if_neg (by omega), removedExpiry]
  dsimp only
  by_cases isLast : index = manager.expirationHeap.length - 1
  · have last : manager.expirationHeap.getLast? = some entry := by
      rw [List.getLast?_eq_getElem?, ← isLast, present]
    rw [if_neg (not_not.mpr isLast), if_pos isLast]
    refine ⟨popEntry_removed coupled last, ?_⟩
    rw [popEntry_eq last]
  -- The entry that was last stands at the index and is sifted, up first and then down.
  · have popped := swap_popEntry_removed coupled present
    have expiry := expiryAt_swap_popEntry present isLast
    rw [if_pos isLast, if_neg isLast]
    generalize (manager.swapEntries index
      (manager.expirationHeap.length - 1)).popEntry = shorter at popped expiry
    have length := popped.length_eq
    have nonempty : shorter.expirationHeap ≠ [] := by
      intro empty
      rw [empty, List.length_nil] at length
      omega
    obtain ⟨resifted, sifted⟩ :=
      heapifyUp_heapifyDown_spec shorter index (by omega)
    rw [if_pos nonempty]
    refine ⟨?_, ?_⟩
    · exact ⟨popped.perm.trans (resifted.perm.symm.cons entry),
        resifted.nextId.trans popped.nextId, resifted.totalExpired.trans popped.totalExpired,
        resifted.mutexHeld.trans popped.mutexHeld, resifted.coupled popped.coupled⟩
    · rw [sifted, expiry, length, Nat.add_sub_cancel]

end Remove

/-! ### Storing an expiry time -/

section Store

variable {manager : TTLManager} {key : Bytes} {index : Nat}

/-- An entry changed in place, under its own key. -/
theorem coupled_modify (coupled : Coupled manager) (found : manager.keyToIndex key = some index)
    (expireTime : Int64) (id nextId : UInt64) :
    Coupled { manager with
      nextId := nextId
      expirationHeap := manager.expirationHeap.modify index fun entry =>
        { entry with expireTime := expireTime, id := id }
      keyToId := Function.update manager.keyToId key (some id) } := by
  obtain ⟨entry, present, -⟩ := coupled.entry found
  constructor
  -- The keys of the entries are as before, so the indices are right.
  · intro other i
    dsimp only
    rw [coupled.indexed, List.getElem?_modify]
    by_cases here : index = i
    · subst here
      rw [present]
      simp
    · simp [here]
  · intro other
    dsimp only
    by_cases same : other = key
    · subst same
      rw [Function.update_self, found, Option.bind_some, List.getElem?_modify_eq, present]
      rfl
    · rw [Function.update_of_ne same, coupled.identified]
      cases elsewhere : manager.keyToIndex other with
      | none => rfl
      | some i =>
        have apart : index ≠ i := by
          rintro rfl
          exact same (coupled.key_eq elsewhere found)
        rw [Option.bind_some, Option.bind_some, List.getElem?_modify_ne _ _ apart]

theorem expiryAt_modify (heap : List TTLEntry) (inRange : index < heap.length)
    (expireTime : Int64) (id : UInt64) :
    expiryAt (heap.modify index fun entry => { entry with expireTime := expireTime, id := id }) =
      Function.update (expiryAt heap) index expireTime := by
  funext k
  rw [expiryAt]
  by_cases here : k = index
  · rw [here, Function.update_self, List.getElem?_modify_eq, List.getElem?_eq_getElem inRange]
    rfl
  · rw [Function.update_of_ne here, List.getElem?_modify_ne _ _ (Ne.symm here), expiryAt]

/-- A key that has a TTL gets its new expiry time at its index. -/
theorem storeExpiry_update (coupled : Coupled manager)
    (found : manager.keyToIndex key = some index) (expireTime : Int64) :
    ∃ other, manager.storeExpiry key expireTime = .returned true other ∧ Coupled other ∧
      other.mutexHeld = manager.mutexHeld ∧
      other.expirationHeap.length = manager.expirationHeap.length ∧
      expiryAt other.expirationHeap = resift manager.expirationHeap.length
        (Function.update (expiryAt manager.expirationHeap) index expireTime) index ∧
      other.nextId = manager.nextId + 1 ∧
      other.expirationHeap.Perm (manager.expirationHeap.modify index fun entry =>
        { entry with expireTime := expireTime, id := manager.nextId }) := by
  have inRange := coupled.index_lt found
  have modified := coupled_modify coupled found expireTime manager.nextId (manager.nextId + 1)
  rw [storeExpiry]
  simp only [found, if_pos inRange]
  refine ⟨_, rfl, ?_⟩
  obtain ⟨resifted, sifted⟩ := heapifyUp_heapifyDown_spec
    { manager with
      nextId := manager.nextId + 1
      expirationHeap := manager.expirationHeap.modify index fun entry =>
        { entry with expireTime := expireTime, id := manager.nextId }
      keyToId := Function.update manager.keyToId key (some manager.nextId) }
    index (by simpa using inRange)
  refine ⟨resifted.coupled modified, resifted.mutexHeld, ?_, ?_, resifted.nextId, resifted.perm⟩
  · rw [resifted.length_eq]
    exact List.length_modify _ _ _
  · rw [sifted, List.length_modify, expiryAt_modify _ inRange]

/-- An entry for a new key at the end of the heap. -/
theorem coupled_append (coupled : Coupled manager) (absent : manager.keyToIndex key = none)
    (expireTime : Int64) (id nextId : UInt64) :
    Coupled { manager with
      nextId := nextId
      expirationHeap := manager.expirationHeap ++ [TTLEntry.mk key expireTime id]
      keyToIndex := Function.update manager.keyToIndex key (some manager.expirationHeap.length)
      keyToId := Function.update manager.keyToId key (some id) } := by
  constructor
  -- An index is inside the old heap, is that of the new entry, or is outside the new heap.
  · intro other i
    dsimp only
    by_cases same : other = key
    · subst same
      rw [Function.update_self, Option.some_inj]
      rcases lt_trichotomy i manager.expirationHeap.length with inside | atEnd | beyond
      · rw [List.getElem?_append_left inside, ← coupled.indexed, absent]
        simp [inside.ne']
      · subst atEnd
        simp
      · rw [List.getElem?_append_right beyond.le]
        simp [beyond.ne, Nat.sub_ne_zero_of_lt beyond]
    · rw [Function.update_of_ne same, coupled.indexed]
      rcases lt_trichotomy i manager.expirationHeap.length with inside | atEnd | beyond
      · rw [List.getElem?_append_left inside]
      · subst atEnd
        simp [Ne.symm same]
      · rw [List.getElem?_append_right beyond.le, List.getElem?_eq_none beyond.le]
        simp [Nat.sub_ne_zero_of_lt beyond]
  · intro other
    dsimp only
    by_cases same : other = key
    · subst same
      rw [Function.update_self, Function.update_self, Option.bind_some, List.getElem?_concat_length]
      rfl
    · rw [Function.update_of_ne same, Function.update_of_ne same, coupled.identified]
      cases found : manager.keyToIndex other with
      | none => rfl
      | some i =>
        rw [Option.bind_some, Option.bind_some,
          List.getElem?_append_left (coupled.index_lt found)]

/-- A key without a TTL gets a new entry, which is sifted up from the end. -/
theorem storeExpiry_append (coupled : Coupled manager) (absent : manager.keyToIndex key = none)
    (expireTime : Int64) :
    ∃ other, manager.storeExpiry key expireTime = .returned true other ∧ Coupled other ∧
      other.mutexHeld = manager.mutexHeld ∧
      other.expirationHeap.length = manager.expirationHeap.length + 1 ∧
      expiryAt other.expirationHeap =
        siftUp (expiryAt (manager.expirationHeap ++ [TTLEntry.mk key expireTime manager.nextId]))
          manager.expirationHeap.length manager.expirationHeap.length ∧
      other.nextId = manager.nextId + 1 ∧
      other.expirationHeap.Perm
        (manager.expirationHeap ++ [TTLEntry.mk key expireTime manager.nextId]) := by
  have appended := coupled_append coupled absent expireTime manager.nextId (manager.nextId + 1)
  rw [storeExpiry]
  simp only [absent]
  refine ⟨_, rfl, ?_⟩
  obtain ⟨rearranged, sifted⟩ := heapifyUpLoop_spec manager.expirationHeap.length
    { manager with
      nextId := manager.nextId + 1
      expirationHeap := manager.expirationHeap ++ [TTLEntry.mk key expireTime manager.nextId]
      keyToIndex := Function.update manager.keyToIndex key (some manager.expirationHeap.length)
      keyToId := Function.update manager.keyToId key (some manager.nextId) }
    manager.expirationHeap.length (by simp)
  refine ⟨rearranged.coupled appended, rearranged.mutexHeld, ?_, sifted, rearranged.nextId,
    rearranged.perm⟩
  rw [heapifyUp, rearranged.length_eq]
  simp

end Store

/-! ### The sweep -/

/-- Some other entry is due no later than the root: what a removal of the root leaves. -/
def RootNotFirst (manager : TTLManager) : Prop :=
  ∀ top rest, manager.expirationHeap = top :: rest → rest ≠ [] →
    ∃ entry ∈ rest, entry.expireTime ≤ top.expireTime

theorem expiryAt_eq {heap : List TTLEntry} {i : Nat} {entry : TTLEntry}
    (present : heap[i]? = some entry) : expiryAt heap i = entry.expireTime := by
  rw [expiryAt, present]
  rfl

theorem removeFromHeap_rootNotFirst {manager : TTLManager} (coupled : Coupled manager) :
    RootNotFirst (manager.removeFromHeap 0) := by
  intro top rest shorter nonempty
  cases heap : manager.expirationHeap with
  | nil =>
    rw [removeFromHeap, if_pos (by simp [heap]), heap] at shorter
    cases shorter
  | cons first others =>
    have present : manager.expirationHeap[0]? = some first := by rw [heap]; rfl
    obtain ⟨removed, expiry⟩ := removeFromHeap_spec coupled present
    have length := removed.length_eq
    have two : 1 < (manager.removeFromHeap 0).expirationHeap.length := by
      rw [shorter, List.length_cons]
      have := List.length_pos_iff.mpr nonempty
      omega
    rw [removedExpiry, if_neg (by omega), length, Nat.add_sub_cancel] at expiry
    -- After a resift at the root some other index comes no later than the root.
    obtain ⟨j, positive, inRange, early⟩ := resift_root
      (Function.update (expiryAt manager.expirationHeap.dropLast) 0
        (expiryAt manager.expirationHeap (manager.removeFromHeap 0).expirationHeap.length)) two
    rw [← expiry, shorter] at early
    rw [shorter, List.length_cons] at inRange
    obtain ⟨i, rfl⟩ := Nat.exists_eq_add_of_lt positive
    have iRange : i < rest.length := by omega
    have entry : (top :: rest)[0 + i + 1]? = some rest[i] := by
      rw [Nat.zero_add, List.getElem?_cons_succ, List.getElem?_eq_getElem]
    refine ⟨rest[i], List.getElem_mem _, ?_⟩
    rw [expiryAt_eq entry, expiryAt_eq (show (top :: rest)[0]? = some top from rfl)] at early
    exact early

end TTLManager
end ScuffedRedis
