import ScuffedRedis.Data.TtlRuns

/-!
# What the TTL manager records

Whatever the order of the heap, an operation answers from the entries and changes only those of
its key. `step` gives the answer together with the manager after it.
-/
namespace ScuffedRedis
namespace TTLManager

open Foundation

/-- What an operation returns; a sweep also tells the keys that its callback was called with. -/
inductive Answer where
  | flag (value : Bool)
  | time (value : Int64)
  | number (value : Nat)
  | expired (count : Nat) (callbacks : List Bytes)
  | done
  deriving DecidableEq

/-- The answer of a call that returns, and the manager after it. -/
def answered {α : Type} (form : α → Answer) : Outcome α → Option (Answer × TTLManager)
  | .returned result manager => some (form result, manager)
  | _ => none

def step (manager : TTLManager) : Op → Option (Answer × TTLManager)
  | .setTtl now key seconds => answered .flag (manager.setTtl now key seconds)
  | .setTtlMs now key milliseconds => answered .flag (manager.setTtlMs now key milliseconds)
  | .getTtl now key => answered .time (manager.getTtl now key)
  | .getTtlMs now key => answered .time (manager.getTtlMs now key)
  | .hasTtl key => answered .flag (manager.hasTtl key)
  | .removeTtl key => answered .flag (manager.removeTtl key)
  | .checkExpirations now =>
    answered (fun result => .expired result.1 result.2) (manager.checkExpirations now)
  | .size => answered .number manager.size
  | .clear => answered (fun _ => .done) manager.clear

theorem checkExpirations_of_step {manager last : TTLManager} {now : Int64} {count : Nat}
    {callbacks : List Bytes}
    (stepped : manager.step (.checkExpirations now) = some (.expired count callbacks, last)) :
    manager.checkExpirations now = .returned (count, callbacks) last := by
  rw [step] at stepped
  cases outcome : manager.checkExpirations now with
  | returned result other =>
    rw [outcome, answered] at stepped
    simp only [Option.some.injEq, Prod.mk.injEq, Answer.expired.injEq] at stepped
    obtain ⟨⟨rfl, rfl⟩, rfl⟩ := stepped
    rfl
  | _ => simp [outcome, answered] at stepped

/-! ### Entries -/

/-- The entries of the other keys. -/
def others (key : Bytes) (heap : List TTLEntry) : List TTLEntry :=
  heap.filter fun entry => entry.key ≠ key

section Entries

variable {manager : TTLManager} (coupled : Coupled manager)

include coupled

theorem Coupled.distinct : (manager.expirationHeap.map TTLEntry.key).Nodup := by
  rw [List.nodup_iff_injective_get]
  intro i j same
  rw [List.get_eq_getElem, List.get_eq_getElem, List.getElem_map, List.getElem_map] at same
  have atI := coupled.index_of (List.getElem?_eq_getElem (by simpa using i.2))
  have atJ := coupled.index_of (List.getElem?_eq_getElem (by simpa using j.2))
  rw [same, atJ] at atI
  exact Fin.ext (Option.some.inj atI).symm

theorem Coupled.mem_iff {entry : TTLEntry} : entry ∈ manager.expirationHeap ↔
    ∃ index, manager.keyToIndex entry.key = some index ∧
      manager.expirationHeap[index]? = some entry := by
  constructor
  · intro listed
    obtain ⟨index, present⟩ := List.mem_iff_getElem?.mp listed
    exact ⟨index, coupled.index_of present, present⟩
  · rintro ⟨index, -, present⟩
    exact List.mem_of_getElem? present

/-- A key that the index does not know has no entry. -/
theorem Coupled.absent {key : Bytes} (unknown : manager.keyToIndex key = none) :
    ∀ entry ∈ manager.expirationHeap, entry.key ≠ key := by
  rintro entry listed rfl
  obtain ⟨index, indexed, -⟩ := coupled.mem_iff.mp listed
  rw [unknown] at indexed
  cases indexed

end Entries

theorem Coupled.expiryOf_eq_some {manager : TTLManager} (coupled : Coupled manager) {key : Bytes}
    {expireTime : Int64} : manager.expiryOf key = some expireTime ↔
      ∃ entry ∈ manager.expirationHeap, entry.key = key ∧ entry.expireTime = expireTime := by
  rw [expiryOf, Option.bind_eq_some_iff]
  constructor
  · rintro ⟨index, found, expiry⟩
    obtain ⟨entry, present, named⟩ := coupled.entry found
    rw [present, Option.map_some, Option.some_inj] at expiry
    exact ⟨entry, List.mem_of_getElem? present, named, expiry⟩
  · rintro ⟨entry, listed, rfl, rfl⟩
    obtain ⟨index, found, present⟩ := coupled.mem_iff.mp listed
    exact ⟨index, found, by rw [present]; rfl⟩

/-- Two managers with the same entries of a key record the same expiry time for it. -/
theorem Coupled.expiryOf_congr {manager other : TTLManager} (coupled : Coupled manager)
    (coupled' : Coupled other) {key : Bytes} (same : ∀ entry : TTLEntry, entry.key = key →
      (entry ∈ other.expirationHeap ↔ entry ∈ manager.expirationHeap)) :
    other.expiryOf key = manager.expiryOf key := by
  apply Option.ext
  intro expireTime
  rw [coupled.expiryOf_eq_some, coupled'.expiryOf_eq_some]
  constructor
  · rintro ⟨entry, listed, named, expiry⟩
    exact ⟨entry, (same entry named).mp listed, named, expiry⟩
  · rintro ⟨entry, listed, named, expiry⟩
    exact ⟨entry, (same entry named).mpr listed, named, expiry⟩

theorem mem_others {key : Bytes} {heap : List TTLEntry} {entry : TTLEntry} :
    entry ∈ others key heap ↔ entry ∈ heap ∧ entry.key ≠ key := by
  rw [others, List.mem_filter, decide_eq_true_eq]

theorem others_eq_self {key : Bytes} {heap : List TTLEntry}
    (absent : ∀ entry ∈ heap, entry.key ≠ key) : others key heap = heap :=
  List.filter_eq_self.mpr fun entry listed => decide_eq_true (absent entry listed)

section Others

variable {heap rest : List TTLEntry} {entry : TTLEntry}
  (distinct : (heap.map TTLEntry.key).Nodup)

include distinct

/-- What stands beside the only entry of its key. -/
theorem others_perm (split : heap.Perm (entry :: rest)) : (others entry.key heap).Perm rest := by
  have keys : ((entry :: rest).map TTLEntry.key).Nodup := (split.map _).nodup_iff.mp distinct
  rw [List.map_cons, List.nodup_cons, List.mem_map] at keys
  have apart : ∀ other ∈ rest, other.key ≠ entry.key := fun other listed same =>
    keys.1 ⟨other, listed, same⟩
  -- The filter takes the entry itself and, since keys are distinct, nothing else.
  have filtered : (others entry.key heap).Perm (others entry.key (entry :: rest)) := split.filter _
  have dropped : others entry.key (entry :: rest) = others entry.key rest :=
    List.filter_cons_of_neg (by simp)
  rw [dropped, others_eq_self apart] at filtered
  exact filtered

/-- An entry changed in place. -/
theorem modify_perm {index : Nat} (present : heap[index]? = some entry)
    (change : TTLEntry → TTLEntry) :
    (heap.modify index change).Perm (change entry :: others entry.key heap) := by
  obtain ⟨inRange, rfl⟩ := List.getElem?_eq_some_iff.mp present
  have whole : heap.Perm (heap[index] :: (heap.take index ++ heap.drop (index + 1))) := by
    have split : heap.take index ++ heap[index] :: heap.drop (index + 1) = heap := by
      rw [← List.drop_eq_getElem_cons inRange, List.take_append_drop]
    conv_lhs => rw [← split]
    exact List.perm_middle
  rw [List.modify_eq_take_cons_drop inRange]
  exact List.perm_middle.trans ((others_perm distinct whole).symm.cons _)

end Others

/-! ### Effects -/

/-- The key has a new entry, and the other keys have theirs. -/
structure Stored (manager : TTLManager) (key : Bytes) (expireTime : Int64) (other : TTLManager) :
    Prop where
  entries : other.expirationHeap.Perm
    (⟨key, expireTime, manager.nextId⟩ :: others key manager.expirationHeap)
  nextId : other.nextId = manager.nextId + 1

/-- The key has no entry, and the other keys have theirs. -/
structure Dropped (manager : TTLManager) (key : Bytes) (other : TTLManager) : Prop where
  entries : other.expirationHeap.Perm (others key manager.expirationHeap)
  nextId : other.nextId = manager.nextId

/-- The entries of the callbacks are gone; all of them were due. -/
structure Expired (manager : TTLManager) (now : Int64) (callbacks : List Bytes)
    (other : TTLManager) : Prop where
  entries : ∃ gone, manager.expirationHeap.Perm (gone ++ other.expirationHeap) ∧
    (∀ entry ∈ gone, entry.expireTime ≤ now) ∧ callbacks = gone.map TTLEntry.key
  nextId : other.nextId = manager.nextId

/-- The answer of an operation with a positive duration, and the manager after it. -/
def Effected (manager : TTLManager) (op : Op) (answer : Answer) (other : TTLManager) : Prop :=
  match op with
  | .setTtl now key seconds =>
    answer = .flag true ∧ Stored manager key (calculateExpireTime now seconds) other
  | .setTtlMs now key milliseconds =>
    answer = .flag true ∧ Stored manager key (calculateExpireTimeMs now milliseconds) other
  | .getTtl now key =>
    answer = .time (timeLeft (manager.expiryOf key) now 1000000000) ∧ other = manager
  | .getTtlMs now key =>
    answer = .time (timeLeft (manager.expiryOf key) now 1000000) ∧ other = manager
  | .hasTtl key => answer = .flag (manager.expiryOf key).isSome ∧ other = manager
  | .removeTtl key => answer = .flag (manager.expiryOf key).isSome ∧ Dropped manager key other
  | .checkExpirations now => ∃ callbacks,
    answer = .expired callbacks.length callbacks ∧ Expired manager now callbacks other
  | .size => answer = .number manager.expirationHeap.length ∧ other = manager
  | .clear => answer = .done ∧ other.expirationHeap = [] ∧ other.nextId = manager.nextId

section Frame

variable {manager other : TTLManager} (coupled : Coupled manager) (coupled' : Coupled other)
  {key stored : Bytes} (apart : key ≠ stored)

include coupled coupled' apart

/-- A new entry changes no other key. -/
theorem Stored.expiryOf_eq {expireTime : Int64}
    (change : Stored manager stored expireTime other) :
    other.expiryOf key = manager.expiryOf key := by
  apply coupled.expiryOf_congr coupled'
  rintro entry rfl
  rw [change.entries.mem_iff, List.mem_cons, mem_others]
  constructor
  · rintro (rfl | ⟨older, -⟩)
    · exact absurd rfl apart
    · exact older
  · exact fun listed => .inr ⟨listed, apart⟩

/-- Nor does a removal. -/
theorem Dropped.expiryOf_eq (change : Dropped manager stored other) :
    other.expiryOf key = manager.expiryOf key := by
  apply coupled.expiryOf_congr coupled'
  rintro entry rfl
  rw [change.entries.mem_iff, mem_others]
  exact ⟨And.left, fun listed => ⟨listed, apart⟩⟩

end Frame

theorem Stored.expiryOf_self {manager other : TTLManager} (coupled' : Coupled other) {key : Bytes}
    {expireTime : Int64} (change : Stored manager key expireTime other) :
    other.expiryOf key = some expireTime :=
  coupled'.expiryOf_eq_some.mpr
    ⟨_, change.entries.mem_iff.mpr List.mem_cons_self, rfl, rfl⟩

theorem Coupled.expiryOf_eq_none {manager : TTLManager} (coupled : Coupled manager) {key : Bytes}
    (absent : ∀ entry ∈ manager.expirationHeap, entry.key ≠ key) : manager.expiryOf key = none := by
  rw [Option.eq_none_iff_forall_ne_some]
  intro expireTime recorded
  obtain ⟨entry, listed, named, -⟩ := coupled.expiryOf_eq_some.mp recorded
  exact absent entry listed named

theorem Dropped.expiryOf_self {manager other : TTLManager} (coupled' : Coupled other) {key : Bytes}
    (change : Dropped manager key other) : other.expiryOf key = none :=
  coupled'.expiryOf_eq_none fun _ listed => (mem_others.mp (change.entries.mem_iff.mp listed)).2

/-- The callbacks of a sweep are for different keys, which were due and have no entry any more. -/
theorem Expired.callbacks_spec {manager other : TTLManager} (coupled : Coupled manager)
    (coupled' : Coupled other) {now : Int64} {callbacks : List Bytes}
    (change : Expired manager now callbacks other) :
    callbacks.Nodup ∧ ∀ key ∈ callbacks, other.expiryOf key = none ∧
      ∃ expireTime, manager.expiryOf key = some expireTime ∧ expireTime ≤ now := by
  obtain ⟨gone, reordered, due, rfl⟩ := change.entries
  have distinct := (reordered.map TTLEntry.key).nodup_iff.mp coupled.distinct
  rw [List.map_append, List.nodup_append] at distinct
  obtain ⟨distinct, -, apart⟩ := distinct
  refine ⟨distinct, fun key listed => ?_⟩
  obtain ⟨entry, expired, rfl⟩ := List.mem_map.mp listed
  constructor
  · -- An entry that is left has a key other than the expired ones.
    apply coupled'.expiryOf_eq_none
    intro left kept same
    exact apart _ listed _ (List.mem_map_of_mem kept) same.symm
  · refine ⟨entry.expireTime, ?_, due entry expired⟩
    rw [coupled.expiryOf_eq_some]
    exact ⟨entry, reordered.mem_iff.mpr (List.mem_append_left _ expired), rfl, rfl⟩

/-- A sweep changes no key without a callback. -/
theorem Expired.expiryOf_eq {manager other : TTLManager} (coupled : Coupled manager)
    (coupled' : Coupled other) {now : Int64} {callbacks : List Bytes}
    (change : Expired manager now callbacks other) {key : Bytes} (kept : key ∉ callbacks) :
    other.expiryOf key = manager.expiryOf key := by
  apply coupled.expiryOf_congr coupled'
  rintro entry rfl
  obtain ⟨gone, reordered, -, rfl⟩ := change.entries
  rw [reordered.mem_iff, List.mem_append]
  constructor
  · exact .inr
  · rintro (expired | left)
    · exact absurd (List.mem_map_of_mem expired) kept
    · exact left

theorem storeExpiry_stored {manager : TTLManager} (coupled : Coupled manager) (key : Bytes)
    (expireTime : Int64) :
    ∃ last, manager.storeExpiry key expireTime = .returned true last ∧ Coupled last ∧
      Stored manager key expireTime last := by
  cases found : manager.keyToIndex key with
  | some index =>
    obtain ⟨last, returned, coupled', -, -, -, nextId, perm⟩ :=
      storeExpiry_update coupled found expireTime
    obtain ⟨entry, present, rfl⟩ := coupled.entry found
    exact ⟨last, returned, coupled', perm.trans (modify_perm coupled.distinct present _), nextId⟩
  | none =>
    obtain ⟨last, returned, coupled', -, -, -, nextId, perm⟩ :=
      storeExpiry_append coupled found expireTime
    -- There was no entry to replace, so all the others are there.
    refine ⟨last, returned, coupled', ?_, nextId⟩
    rw [others_eq_self (coupled.absent found)]
    exact perm.trans (List.perm_append_singleton _ _)

theorem isSome_expiryOf {manager : TTLManager} (coupled : Coupled manager) (key : Bytes) :
    (manager.expiryOf key).isSome = (manager.keyToIndex key).isSome := by
  rw [expiryOf]
  cases found : manager.keyToIndex key with
  | none => rfl
  | some index =>
    obtain ⟨entry, present, -⟩ := coupled.entry found
    rw [Option.bind_some, present]
    rfl

/-- What `set_ttl` and `set_ttl_ms` share: with a positive duration the expiry time is stored. -/
theorem locked_stored {manager : TTLManager} (ready : Ready manager) {duration : Int64}
    (positive : 0 < duration) (key : Bytes) (expireTime : Int64) :
    ∃ other,
      (manager.locked fun manager =>
        if duration ≤ 0 then manager.removeTtl key else manager.storeExpiry key expireTime) =
          .returned true other ∧ Ready other ∧ Stored manager key expireTime other := by
  obtain ⟨last, returned, coupled, stored⟩ :=
    storeExpiry_stored (ready.coupled.withMutex true) key expireTime
  exact ⟨{ last with mutexHeld := false },
    locked_eq ready.free true last ((if_neg (Int64.not_le.mpr positive)).trans returned),
    ⟨coupled.withMutex false, rfl⟩, stored.entries, stored.nextId⟩

/-- What `RemoveTTL` returns and leaves, whether or not the key has an entry. -/
theorem removeTtl_dropped {manager : TTLManager} (ready : Ready manager) (key : Bytes) :
    ∃ other, manager.removeTtl key = .returned (manager.expiryOf key).isSome other ∧
      Ready other ∧ Dropped manager key other := by
  have held := ready.coupled.withMutex true
  rw [isSome_expiryOf ready.coupled, removeTtl]
  cases found : manager.keyToIndex key with
  | none =>
    -- Nothing to remove: the lock is taken and released.
    refine ⟨manager, ?_, ready, ?_, rfl⟩
    · rw [locked_eq ready.free false { manager with mutexHeld := true } (by simp only [found])]
      exact congrArg (Outcome.returned false) ready.unlocked
    · rw [others_eq_self (ready.coupled.absent found)]
  | some index =>
    obtain ⟨entry, present, rfl⟩ := ready.coupled.entry found
    obtain ⟨removed, -⟩ := removeFromHeap_spec held
      (show ({ manager with mutexHeld := true } : TTLManager).expirationHeap[index]? = _ from
        present)
    refine ⟨{ removeFromHeap { manager with mutexHeld := true } index with mutexHeld := false },
      ?_, ⟨removed.coupled.withMutex false, rfl⟩,
      (others_perm ready.coupled.distinct removed.perm).symm, removed.nextId⟩
    exact locked_eq ready.free true (removeFromHeap { manager with mutexHeld := true } index)
      (by simp only [found])

/-- **What an operation answers and records.** With a positive duration it returns. -/
theorem step_spec {manager : TTLManager} (ready : Ready manager) (op : Op)
    (positive : op.Positive) :
    ∃ answer other, manager.step op = some (answer, other) ∧ Ready other ∧
      Effected manager op answer other := by
  -- Every operation runs its body on the manager with the mutex held.
  have held := ready.coupled.withMutex true
  have unlocked := ready.unlocked
  cases op with
  | setTtl now key seconds =>
    obtain ⟨other, call, ready', stored⟩ :=
      locked_stored ready positive key (calculateExpireTime now seconds)
    refine ⟨.flag true, other, ?_, ready', rfl, stored⟩
    rw [step, setTtl, call]
    rfl
  | setTtlMs now key milliseconds =>
    obtain ⟨other, call, ready', stored⟩ :=
      locked_stored ready positive key (calculateExpireTimeMs now milliseconds)
    refine ⟨.flag true, other, ?_, ready', rfl, stored⟩
    rw [step, setTtlMs, call]
    rfl
  | getTtl now key =>
    refine ⟨_, manager, ?_, ready, rfl, rfl⟩
    rw [step, getTtl, remaining_eq ready]
    rfl
  | getTtlMs now key =>
    refine ⟨_, manager, ?_, ready, rfl, rfl⟩
    rw [step, getTtlMs, remaining_eq ready]
    rfl
  | hasTtl key =>
    have call : manager.hasTtl key =
        .returned (manager.keyToIndex key).isSome { manager with mutexHeld := false } :=
      locked_eq ready.free _ { manager with mutexHeld := true } rfl
    refine ⟨_, manager, ?_, ready, rfl, rfl⟩
    rw [step, call, unlocked, isSome_expiryOf ready.coupled]
    rfl
  | removeTtl key =>
    obtain ⟨other, call, ready', dropped⟩ := removeTtl_dropped ready key
    refine ⟨_, other, ?_, ready', rfl, dropped⟩
    rw [step, call]
    rfl
  | checkExpirations now =>
    have swept := expireLoop_swept now held (le_refl _)
    obtain ⟨gone, reordered, due, keys⟩ := swept.gone
    have call : manager.checkExpirations now = _ := locked_eq ready.free _ _ rfl
    refine ⟨_, _, ?_, ⟨swept.coupled.withMutex false, rfl⟩, _, rfl, ⟨gone, reordered, due, keys⟩,
      swept.nextId⟩
    rw [step, call]
    rfl
  | size =>
    have call : manager.size =
        .returned manager.expirationHeap.length { manager with mutexHeld := false } :=
      locked_eq ready.free _ { manager with mutexHeld := true } rfl
    refine ⟨_, manager, ?_, ready, rfl, rfl⟩
    rw [step, call, unlocked]
    rfl
  | clear =>
    -- `clear` keeps `next_id_`.
    let cleared : TTLManager :=
      { manager with
        expirationHeap := []
        keyToIndex := fun _ => none
        keyToId := fun _ => none
        mutexHeld := false }
    have call : manager.clear = .returned () cleared :=
      locked_eq ready.free _ { cleared with mutexHeld := true } rfl
    refine ⟨.done, cleared, ?_, ⟨?_, rfl⟩, rfl, rfl, rfl⟩
    · rw [step, call]
      rfl
    · exact ⟨fun key i => by simp [cleared], fun key => rfl⟩

end TTLManager
end ScuffedRedis
