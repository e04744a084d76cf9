import ScuffedRedis.Data.TtlRefinement

/-!
# Callbacks of the TTL manager

The events of a run are its sets, removals and callbacks, in order. A key is live with an expiry
time from a set on until its next event. Callbacks are only for live keys that are due.
-/
namespace ScuffedRedis
namespace TTLManager

open Foundation

inductive Event where
  /-- The key is to expire at this time. -/
  | set (key : Bytes) (expiry : Int)
  | remove (key : Bytes)
  | clear
  /-- The expiration callback, in a sweep with this clock reading. -/
  | callback (now : Int) (key : Bytes)

def Event.Concerns (key : Bytes) : Event → Prop
  | .set other _ | .remove other | .callback _ other => other = key
  | .clear => True

/-- The events of an operation with this answer. -/
def events : Op → Answer → List Event
  | .setTtl now key seconds, _ => [.set key (now.toInt + seconds.toInt * 1000000000)]
  | .setTtlMs now key milliseconds, _ => [.set key (now.toInt + milliseconds.toInt * 1000000)]
  | .removeTtl key, _ => [.remove key]
  | .checkExpirations now, .expired _ callbacks => callbacks.map (.callback now.toInt)
  | .clear, _ => [.clear]
  | _, _ => []

/-- The events of a run with these answers. -/
def trace (ops : List Op) (answers : List Answer) : List Event :=
  (List.zipWith events ops answers).flatten

/-! ### Live keys -/

/-- The expiry time of a key after an event. -/
def liveAfter (key : Bytes) (known : Option Int) : Event → Option Int
  | .set other expiry => if other = key then some expiry else known
  | .remove other => if other = key then none else known
  | .clear => none
  | .callback _ other => if other = key then none else known

/-- The expiry time from the last event of a key, when that is a set. -/
def live (past : List Event) (key : Bytes) : Option Int := past.foldl (liveAfter key) none

theorem live_concat (past : List Event) (event : Event) (key : Bytes) :
    live (past ++ [event]) key = liveAfter key (live past key) event := by
  rw [live, List.foldl_append]
  rfl

theorem liveAfter_of_not_concerns {key : Bytes} {event : Event} (apart : ¬ event.Concerns key)
    (known : Option Int) : liveAfter key known event = known := by
  cases event with
  | clear => exact absurd trivial apart
  | _ => exact if_neg apart

/-- A live key has been set, and nothing has happened to it since. -/
theorem exists_set_of_live {past : List Event} {key : Bytes} {expiry : Int}
    (alive : live past key = some expiry) :
    ∃ before after, past = before ++ .set key expiry :: after ∧
      ∀ event ∈ after, ¬ event.Concerns key := by
  -- From the last event back to the set that the key is live from.
  induction past using List.reverseRecOn with
  | nil => cases alive
  | append_singleton past event ih =>
    rw [live_concat] at alive
    by_cases concerns : event.Concerns key
    · -- The last event of a live key is a set.
      cases event with
      | set other time =>
        obtain rfl : other = key := concerns
        rw [liveAfter, if_pos rfl, Option.some_inj] at alive
        rw [alive]
        exact ⟨past, [], rfl, by simp⟩
      | remove other =>
        obtain rfl : other = key := concerns
        rw [liveAfter, if_pos rfl] at alive
        cases alive
      | clear => cases alive
      | callback now other =>
        obtain rfl : other = key := concerns
        rw [liveAfter, if_pos rfl] at alive
        cases alive
    · rw [liveAfter_of_not_concerns concerns] at alive
      obtain ⟨before, after, rfl, silent⟩ := ih alive
      refine ⟨before, after ++ [event], by simp, fun other listed => ?_⟩
      rcases List.mem_append.mp listed with old | new
      · exact silent other old
      · rw [List.mem_singleton.mp new]
        exact concerns

/-- Every callback is for a key that is live before it, and due. -/
def Faithful (past : List Event) : Prop :=
  ∀ before now key after, past = before ++ .callback now key :: after →
    ∃ expiry, live before key = some expiry ∧ expiry ≤ now

theorem Faithful.nil : Faithful [] := by
  intro before now key after split
  cases before <;> cases split

theorem Faithful.concat {past : List Event} (faithful : Faithful past) {event : Event}
    (due : ∀ now key, event = .callback now key →
      ∃ expiry, live past key = some expiry ∧ expiry ≤ now) :
    Faithful (past ++ [event]) := by
  intro before now key after split
  rcases List.eq_nil_or_concat' after with rfl | ⟨front, last, rfl⟩
  · obtain ⟨rfl, same⟩ := List.append_inj' split rfl
    exact due now key (List.singleton_inj.mp same)
  · rw [← List.cons_append, ← List.append_assoc] at split
    obtain ⟨rfl, -⟩ := List.append_inj' split rfl
    exact faithful before now key front rfl

/-- Callbacks for different keys that are live and due. -/
theorem Faithful.callbacks {past : List Event} (faithful : Faithful past) {now : Int}
    {keys : List Bytes} (distinct : keys.Nodup)
    (due : ∀ key ∈ keys, ∃ expiry, live past key = some expiry ∧ expiry ≤ now) :
    Faithful (past ++ keys.map (.callback now)) ∧
      ∀ key, live (past ++ keys.map (.callback now)) key =
        if key ∈ keys then none else live past key := by
  induction keys using List.reverseRecOn with
  | nil => simpa using faithful
  | append_singleton keys last ih =>
    rw [List.nodup_append] at distinct
    obtain ⟨distinct, -, apart⟩ := distinct
    -- The last key is still live: the callbacks before it are for other keys.
    have fresh : last ∉ keys := fun listed =>
      apart last listed last (List.mem_singleton.mpr rfl) rfl
    obtain ⟨faithful, lives⟩ := ih distinct fun key listed =>
      due key (List.mem_append_left _ listed)
    obtain ⟨expiry, alive, early⟩ := due last (by simp)
    rw [List.map_append, List.map_singleton, ← List.append_assoc]
    constructor
    · apply faithful.concat
      rintro now' key ⟨⟩
      refine ⟨expiry, ?_, early⟩
      rw [lives, if_neg fresh, alive]
    · intro key
      rw [live_concat, liveAfter, lives]
      by_cases same : last = key
      · subst same
        simp
      · simp [same, Ne.symm same]

/-! ### Runs -/

/-- The events so far are faithful, and the live keys are those with a recorded expiry time. -/
structure Traced (manager : TTLManager) (past : List Event) : Prop where
  ready : Ready manager
  lives : ∀ key, live past key = (manager.expiryOf key).map Int64.toInt
  faithful : Faithful past

theorem Traced.initial : Traced initial [] := ⟨.initial, fun _ => rfl, .nil⟩

section Steps

variable {manager other : TTLManager} {past : List Event} (traced : Traced manager past)
  (ready' : Ready other)

include traced ready'

theorem Traced.stored {key : Bytes} {expireTime : Int64} {expiry : Int}
    (stored : Stored manager key expireTime other) (exact : expireTime.toInt = expiry) :
    Traced other (past ++ [.set key expiry]) := by
  refine ⟨ready', fun other' => ?_, traced.faithful.concat (by simp)⟩
  rw [live_concat, liveAfter, traced.lives]
  by_cases same : key = other'
  · subst same
    rw [if_pos rfl, stored.expiryOf_self ready'.coupled, Option.map_some, exact]
  · rw [if_neg same, stored.expiryOf_eq traced.ready.coupled ready'.coupled (Ne.symm same)]

theorem Traced.dropped {key : Bytes} (dropped : Dropped manager key other) :
    Traced other (past ++ [.remove key]) := by
  refine ⟨ready', fun other' => ?_, traced.faithful.concat (by simp)⟩
  rw [live_concat, liveAfter, traced.lives]
  by_cases same : key = other'
  · subst same
    rw [if_pos rfl, dropped.expiryOf_self ready'.coupled, Option.map_none]
  · rw [if_neg same, dropped.expiryOf_eq traced.ready.coupled ready'.coupled (Ne.symm same)]

theorem Traced.expired {now : Int64} {callbacks : List Bytes}
    (expired : Expired manager now callbacks other) :
    Traced other (past ++ callbacks.map (.callback now.toInt)) := by
  obtain ⟨distinct, gone⟩ := expired.callbacks_spec traced.ready.coupled ready'.coupled
  have due : ∀ key ∈ callbacks, ∃ expiry, live past key = some expiry ∧ expiry ≤ now.toInt := by
    intro key listed
    obtain ⟨-, expireTime, recorded, early⟩ := gone key listed
    refine ⟨expireTime.toInt, ?_, Int64.le_iff_toInt_le.mp early⟩
    rw [traced.lives, recorded, Option.map_some]
  obtain ⟨faithful, lives⟩ := traced.faithful.callbacks distinct due
  refine ⟨ready', fun key => ?_, faithful⟩
  rw [lives, traced.lives]
  by_cases listed : key ∈ callbacks
  · rw [if_pos listed, (gone key listed).1, Option.map_none]
  · rw [if_neg listed, expired.expiryOf_eq traced.ready.coupled ready'.coupled listed]

end Steps

theorem step_traced {manager : TTLManager} {past : List Event} (traced : Traced manager past)
    (op : Op) (fits : op.Fits) : ∃ answer other, manager.step op = some (answer, other) ∧
      Traced other (past ++ events op answer) := by
  obtain ⟨answer, other, stepped, ready', effected⟩ := step_spec traced.ready op fits.positive
  refine ⟨answer, other, stepped, ?_⟩
  -- An operation without an effect has no event.
  have silent (same : other = manager) : Traced other (past ++ []) := by
    rw [same, List.append_nil]
    exact traced
  cases op with
  | setTtl now key seconds =>
    obtain ⟨positive, duration, expiry⟩ := fits
    exact traced.stored ready' effected.2 (calculateExpireTime_toInt positive duration expiry)
  | setTtlMs now key milliseconds =>
    obtain ⟨positive, duration, expiry⟩ := fits
    exact traced.stored ready' effected.2 (calculateExpireTimeMs_toInt positive duration expiry)
  | getTtl now key => exact silent effected.2
  | getTtlMs now key => exact silent effected.2
  | hasTtl key => exact silent effected.2
  | removeTtl key => exact traced.dropped ready' effected.2
  | checkExpirations now =>
    obtain ⟨callbacks, rfl, expired⟩ := effected
    exact traced.expired ready' expired
  | size => exact silent effected.2
  | clear =>
    refine ⟨ready', fun key => ?_, traced.faithful.concat (by simp)⟩
    have absent : ∀ entry ∈ other.expirationHeap, entry.key ≠ key := by
      rw [effected.2.1]
      exact fun entry listed => absurd listed List.not_mem_nil
    rw [events, live_concat, liveAfter, ready'.coupled.expiryOf_eq_none absent, Option.map_none]

theorem run_traced {manager : TTLManager} {past : List Event} (traced : Traced manager past)
    {ops : List Op} (fits : ∀ op ∈ ops, op.Fits) :
    ∃ answers last, runAnswers step manager ops = some (answers, last) ∧
      Traced last (past ++ trace ops answers) := by
  induction ops generalizing manager past with
  | nil => exact ⟨[], manager, rfl, by simpa [trace] using traced⟩
  | cons op ops ih =>
    rw [List.forall_mem_cons] at fits
    obtain ⟨answer, other, stepped, traced'⟩ := step_traced traced op fits.1
    obtain ⟨answers, last, rest, final⟩ := ih traced' fits.2
    refine ⟨answer :: answers, last, runAnswers_cons stepped rest, ?_⟩
    rw [trace, List.zipWith_cons_cons, List.flatten_cons, ← List.append_assoc]
    exact final

/-- **No key expires early or twice.** In a run with durations that fit, each callback comes after
a set of its key whose expiry time has passed, with no set, removal or callback of the key and no
clear in between. A sweep then returns the number of its callbacks, and the keys without one keep
their expiry times. -/
theorem run_callbacks (ops : List Op) (fits : ∀ op ∈ ops, op.Fits) :
    ∃ answers manager, runAnswers step initial ops = some (answers, manager) ∧
      (∀ past now key future, trace ops answers = past ++ .callback now key :: future →
        ∃ before expiry after, past = before ++ .set key expiry :: after ∧ expiry ≤ now ∧
          ∀ event ∈ after, ¬ event.Concerns key) ∧
      ∀ now, ∃ callbacks last,
        manager.checkExpirations now = .returned (callbacks.length, callbacks) last ∧
          ∀ key, key ∉ callbacks → last.expiryOf key = manager.expiryOf key := by
  obtain ⟨answers, manager, reached, traced⟩ := run_traced .initial fits
  rw [List.nil_append] at traced
  refine ⟨answers, manager, reached, fun past now key future split => ?_, fun now => ?_⟩
  · -- A live key was set, with nothing after it.
    obtain ⟨expiry, alive, early⟩ := traced.faithful past now key future split
    obtain ⟨before, after, shape, silent⟩ := exists_set_of_live alive
    exact ⟨before, expiry, after, shape, early, silent⟩
  · obtain ⟨answer, last, stepped, ready, callbacks, rfl, expired⟩ :=
      step_spec traced.ready (.checkExpirations now) trivial
    refine ⟨callbacks, last, ?_, fun key kept =>
      expired.expiryOf_eq traced.ready.coupled ready.coupled kept⟩
    exact checkExpirations_of_step stepped

theorem run_callbacks_two :
    ∃ answers manager,
      runAnswers step initial [.setTtl 0 (text "a") 1, .checkExpirations 2000000000] =
          some (answers, manager) ∧
        (∀ past now key future,
          trace [.setTtl 0 (text "a") 1, .checkExpirations 2000000000] answers =
            past ++ .callback now key :: future →
          ∃ before expiry after, past = before ++ .set key expiry :: after ∧ expiry ≤ now ∧
            ∀ event ∈ after, ¬ event.Concerns key) ∧
        ∀ now, ∃ callbacks last,
          manager.checkExpirations now = .returned (callbacks.length, callbacks) last ∧
            ∀ key, key ∉ callbacks → last.expiryOf key = manager.expiryOf key :=
  run_callbacks [.setTtl 0 (text "a") 1, .checkExpirations 2000000000] (by decide)

end TTLManager
end ScuffedRedis
