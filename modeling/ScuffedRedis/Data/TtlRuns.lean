import ScuffedRedis.Foundation.Simulation
import ScuffedRedis.Data.TtlSweep

/-!
# Runs of the TTL manager

`change` says what an operation does to the heap array, as a function of the state before it.
Operations with positive durations return, and keep the maps and the mutex in order.
-/
namespace ScuffedRedis
namespace TTLManager

open Foundation

/-- The state between two operations. -/
structure Ready (manager : TTLManager) : Prop where
  coupled : Coupled manager
  free : manager.mutexHeld = false

theorem Ready.initial : Ready initial := ⟨.initial, rfl⟩

/-- What an operation does to the heap array. -/
inductive Change where
  | kept
  | updated (index : Nat) (expireTime : Int64)
  | appended (expireTime : Int64)
  | removed (index : Nat)
  | swept (now : Int64)
  | cleared

def storeChange (manager : TTLManager) (key : Bytes) (expireTime : Int64) : Change :=
  match manager.keyToIndex key with
  | some index => .updated index expireTime
  | none => .appended expireTime

/-- For positive durations. -/
def change (manager : TTLManager) : Op → Change
  | .setTtl now key seconds => manager.storeChange key (calculateExpireTime now seconds)
  | .setTtlMs now key milliseconds =>
    manager.storeChange key (calculateExpireTimeMs now milliseconds)
  | .removeTtl key =>
    match manager.keyToIndex key with
    | some index => .removed index
    | none => .kept
  | .checkExpirations now => .swept now
  | .clear => .cleared
  | .getTtl _ _ | .getTtlMs _ _ | .hasTtl _ | .size => .kept

/-- The heap array before and after a change. -/
def Changed (manager : TTLManager) : Change → TTLManager → Prop
  | .kept, other => other.expirationHeap = manager.expirationHeap
  | .updated index expireTime, other =>
    index < manager.expirationHeap.length ∧
      other.expirationHeap.length = manager.expirationHeap.length ∧
      expiryAt other.expirationHeap = resift manager.expirationHeap.length
        (Function.update (expiryAt manager.expirationHeap) index expireTime) index
  | .appended expireTime, other =>
    other.expirationHeap.length = manager.expirationHeap.length + 1 ∧
      ∃ entry : TTLEntry, entry.expireTime = expireTime ∧
        expiryAt other.expirationHeap = siftUp (expiryAt (manager.expirationHeap ++ [entry]))
          manager.expirationHeap.length manager.expirationHeap.length
  | .removed index, other =>
    index < manager.expirationHeap.length ∧
      manager.expirationHeap.length = other.expirationHeap.length + 1 ∧
      expiryAt other.expirationHeap = removedExpiry manager.expirationHeap index
  | .swept now, other => other.expirationHeap = leftBySweep manager now
  | .cleared, other => other.expirationHeap = []

/-- The mutex plays no part in it. -/
theorem Changed.withMutex {manager other : TTLManager} {change : Change} {before after : Bool}
    (changed : Changed { manager with mutexHeld := before } change other) :
    Changed manager change { other with mutexHeld := after } := by
  cases change <;> exact changed

/-- The durations that the public interface calls a TTL; the others ask for its removal. -/
def Op.Positive : Op → Prop
  | .setTtl _ _ seconds => 0 < seconds
  | .setTtlMs _ _ milliseconds => 0 < milliseconds
  | _ => True

instance : DecidablePred Op.Positive
  | .setTtl _ _ seconds => inferInstanceAs (Decidable (0 < seconds))
  | .setTtlMs _ _ milliseconds => inferInstanceAs (Decidable (0 < milliseconds))
  | .getTtl _ _ | .getTtlMs _ _ | .hasTtl _ | .removeTtl _ | .checkExpirations _ | .size |
    .clear => isTrue trivial

/-! ### One operation -/

section Locked

variable {α : Type} {manager : TTLManager} (free : manager.mutexHeld = false)
  {body : TTLManager → Outcome α} (result : α) (last : TTLManager)
  (ran : body { manager with mutexHeld := true } = .returned result last)

include free ran

theorem locked_eq : manager.locked body = .returned result { last with mutexHeld := false } := by
  rw [locked, free, if_neg Bool.false_ne_true, ran]

theorem locked_returned :
    (manager.locked body).manager? = some { last with mutexHeld := false } := by
  rw [locked_eq free result last ran]
  rfl

end Locked

/-- A call that locks and unlocks around nothing. -/
theorem Ready.unlocked {manager : TTLManager} (ready : Ready manager) :
    ({ manager with mutexHeld := false } : TTLManager) = manager := by
  rw [← ready.free]

theorem storeExpiry_spec {manager : TTLManager} (coupled : Coupled manager) (key : Bytes)
    (expireTime : Int64) :
    ∃ last, manager.storeExpiry key expireTime = .returned true last ∧ Coupled last ∧
      Changed manager (manager.storeChange key expireTime) last := by
  rw [storeChange]
  cases found : manager.keyToIndex key with
  | some index =>
    obtain ⟨last, returned, coupled', -, length, expiry, -⟩ :=
      storeExpiry_update coupled found expireTime
    exact ⟨last, returned, coupled', coupled.index_lt found, length, expiry⟩
  | none =>
    obtain ⟨last, returned, coupled', -, length, expiry, -⟩ :=
      storeExpiry_append coupled found expireTime
    exact ⟨last, returned, coupled', length, _, rfl, expiry⟩

/-- The expiry time that is recorded for a key. -/
def expiryOf (manager : TTLManager) (key : Bytes) : Option Int64 :=
  (manager.keyToIndex key).bind fun index =>
    manager.expirationHeap[index]?.map TTLEntry.expireTime

/-- What `get_ttl` and `get_ttl_ms` make of a recorded expiry time. -/
def timeLeft (expiry : Option Int64) (now unit : Int64) : Int64 :=
  match expiry with
  | none => -1
  | some expireTime => if expireTime ≤ now then -2 else (expireTime - now) / unit

theorem remaining_eq {manager : TTLManager} (ready : Ready manager) (now : Int64) (key : Bytes)
    (unit : Int64) :
    manager.remaining now key unit =
      .returned (timeLeft (manager.expiryOf key) now unit) manager := by
  have ran : (manager.remaining now key unit) =
      .returned (timeLeft (manager.expiryOf key) now unit) { manager with mutexHeld := false } := by
    apply locked_eq ready.free _ { manager with mutexHeld := true }
    rw [expiryOf]
    cases found : manager.keyToIndex key with
    | none => rfl
    | some index =>
      obtain ⟨entry, present, -⟩ := ready.coupled.entry found
      simp only [Option.bind_some, present, Option.map_some, timeLeft]
      split <;> rfl
  rw [ran, ready.unlocked]

theorem remaining_spec {manager : TTLManager} (ready : Ready manager) (now : Int64) (key : Bytes)
    (unit : Int64) : (manager.remaining now key unit).manager? = some manager := by
  rw [remaining_eq ready]
  rfl

/-- **What an operation can do.** With a positive duration it returns, the maps and the mutex
are in order again, and the heap array has changed as `change` says. -/
theorem next_spec {manager : TTLManager} (ready : Ready manager) (op : Op)
    (positive : op.Positive) :
    ∃ other, manager.next op = some other ∧ Ready other ∧
      Changed manager (manager.change op) other := by
  have held := ready.coupled.withMutex true
  -- Each body runs with the mutex held, and the lock guard frees it on the way out.
  cases op with
  | setTtl now key seconds =>
    obtain ⟨last, returned, coupled, changed⟩ :=
      storeExpiry_spec held key (calculateExpireTime now seconds)
    have ran : (manager.setTtl now key seconds).manager? = some _ :=
      locked_returned ready.free true last ((if_neg (Int64.not_le.mpr positive)).trans returned)
    exact ⟨_, ran, ⟨coupled.withMutex false, rfl⟩, changed.withMutex⟩
  | setTtlMs now key milliseconds =>
    obtain ⟨last, returned, coupled, changed⟩ :=
      storeExpiry_spec held key (calculateExpireTimeMs now milliseconds)
    have ran : (manager.setTtlMs now key milliseconds).manager? = some _ :=
      locked_returned ready.free true last ((if_neg (Int64.not_le.mpr positive)).trans returned)
    exact ⟨_, ran, ⟨coupled.withMutex false, rfl⟩, changed.withMutex⟩
  | getTtl now key => exact ⟨manager, remaining_spec ready now key _, ready, rfl⟩
  | getTtlMs now key => exact ⟨manager, remaining_spec ready now key _, ready, rfl⟩
  | hasTtl key =>
    exact ⟨_, locked_returned ready.free _ _ rfl, ⟨ready.coupled.withMutex false, rfl⟩, rfl⟩
  | removeTtl key =>
    rw [change, next, removeTtl]
    cases found : manager.keyToIndex key with
    | none =>
      refine ⟨_, locked_returned ready.free false { manager with mutexHeld := true } ?_,
        ⟨ready.coupled.withMutex false, rfl⟩, rfl⟩
      simp only [found]
    | some index =>
      obtain ⟨entry, present, -⟩ := ready.coupled.entry found
      obtain ⟨removed, expiry⟩ := removeFromHeap_spec held
        (show ({ manager with mutexHeld := true } : TTLManager).expirationHeap[index]? = _ from
          present)
      refine ⟨_, locked_returned ready.free true
        (removeFromHeap { manager with mutexHeld := true } index) ?_,
        ⟨removed.coupled.withMutex false, rfl⟩, ready.coupled.index_lt found, removed.length_eq,
        expiry⟩
      simp only [found]
  | checkExpirations now =>
    have swept := expireLoop_swept now held (le_refl _)
    exact ⟨_, locked_returned ready.free _ _ rfl, ⟨swept.coupled.withMutex false, rfl⟩, rfl⟩
  | size => exact ⟨_, locked_returned ready.free _ _ rfl, ⟨ready.coupled.withMutex false, rfl⟩, rfl⟩
  | clear =>
    refine ⟨_, locked_returned ready.free _ _ rfl, ⟨?_, rfl⟩, rfl⟩
    exact ⟨fun key i => by simp, fun key => rfl⟩

/-! ### Runs -/

theorem run_cons {manager other : TTLManager} {op : Op} (stepped : manager.next op = some other)
    (ops : List Op) : manager.run (op :: ops) = other.run ops := by
  rw [run, List.foldlM_cons, stepped]
  rfl

/-- Runs with positive durations return. -/
theorem run_ready {manager : TTLManager} (ready : Ready manager) (ops : List Op)
    (positive : ∀ op ∈ ops, op.Positive) : ∃ last, manager.run ops = some last ∧ Ready last := by
  refine foldlM_invariant next Op.Positive (fun state op ready allowed => ?_) ready positive
  obtain ⟨other, stepped, ready', -⟩ := next_spec ready op allowed
  exact ⟨other, stepped, ready'⟩

/-! ### Complete sweeps -/

/-- **When a sweep is complete.** In every state that a run with positive durations reaches, a
sweep returns the number of due entries and leaves none of them exactly when no entry but the
root of the heap is due, or all entries are. -/
theorem run_sweepComplete_iff (ops : List Op) (positive : ∀ op ∈ ops, op.Positive) :
    ∃ manager, initial.run ops = some manager ∧
      ∀ now, SweepComplete manager now ↔ OnlyRootDue manager now ∨ AllDue manager now := by
  obtain ⟨manager, reached, ready⟩ := run_ready .initial ops positive
  exact ⟨manager, reached, sweepComplete_iff ready.coupled ready.free⟩

theorem run_sweepComplete_iff_three :
    (∀ op ∈ [Op.setTtl 0 (text "a") 1, .setTtl 0 (text "b") 2, .setTtl 0 (text "c") 100],
        op.Positive) ∧
      ∃ manager, initial.run
          [.setTtl 0 (text "a") 1, .setTtl 0 (text "b") 2, .setTtl 0 (text "c") 100] =
            some manager ∧
        ∀ now, SweepComplete manager now ↔ OnlyRootDue manager now ∨ AllDue manager now :=
  ⟨by decide, run_sweepComplete_iff
    [.setTtl 0 (text "a") 1, .setTtl 0 (text "b") 2, .setTtl 0 (text "c") 100] (by decide)⟩

/-- Keys that expire after 1, 2 and 100 seconds: the sweep at 2.5 seconds removes the first,
lifts the last to the root and stops there, with the second still in the heap. -/
theorem sweep_leaves_due_key :
    ∃ manager, initial.run
        [.setTtl 0 (text "a") 1, .setTtl 0 (text "b") 2, .setTtl 0 (text "c") 100] =
          some manager ∧
      ¬ SweepComplete manager 2500000000 := by
  refine ⟨_, rfl, ?_⟩
  rintro ⟨count, expired, last, returned, later, -⟩
  cases returned
  have member := later ⟨text "b", 2000000000, 2⟩ (by decide)
  exact absurd member (by decide)

end TTLManager
end ScuffedRedis
