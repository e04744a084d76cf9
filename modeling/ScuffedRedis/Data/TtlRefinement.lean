import ScuffedRedis.Data.TtlContents
import ScuffedRedis.Foundation.Simulation
import ScuffedRedis.Foundation.FiniteMap
import ScuffedRedis.Foundation.SignedArithmetic

/-!
# The TTL manager as a map of expiry times

Between sweeps the manager answers like a map from keys to expiry times, which are integers
there. The order of the heap cannot be seen.
-/
namespace ScuffedRedis

open Foundation

/-- Expiry times in nanoseconds. -/
abbrev TtlMap := Finmap fun _ : Bytes => Int

/-- An answer with its time as an integer. -/
inductive Told where
  | flag (value : Bool)
  | time (value : Int)
  | number (value : Nat)
  | done
  deriving DecidableEq

def TTLManager.Answer.told : TTLManager.Answer → Told
  | .flag value => .flag value
  | .time value => .time value.toInt
  | .number value => .number value
  | .expired count _ => .number count
  | .done => .done

namespace TtlMap

/-- The time left in whole units, rounded down. -/
def timeLeft (expiry : Option Int) (now unit : Int) : Int :=
  match expiry with
  | none => -1
  | some expiry => if expiry ≤ now then -2 else (expiry - now) / unit

/-- The reference for all operations but the sweep, which is no part of these runs. -/
def step (map : TtlMap) : TTLManager.Op → Told × TtlMap
  | .setTtl now key seconds =>
    (.flag true, map.insert key (now.toInt + seconds.toInt * 1000000000))
  | .setTtlMs now key milliseconds =>
    (.flag true, map.insert key (now.toInt + milliseconds.toInt * 1000000))
  | .getTtl now key => (.time (timeLeft (map.lookup key) now.toInt 1000000000), map)
  | .getTtlMs now key => (.time (timeLeft (map.lookup key) now.toInt 1000000), map)
  | .hasTtl key => (.flag (map.lookup key).isSome, map)
  | .removeTtl key => (.flag (map.lookup key).isSome, map.erase key)
  | .checkExpirations _ => (.done, map)
  | .size => (.number map.keys.card, map)
  | .clear => (.done, ∅)

end TtlMap

namespace TTLManager

/-! ### Durations and readings -/

/-- A positive duration whose expiry time is computed without overflow. -/
def Op.Fits : Op → Prop
  | .setTtl now _ seconds => 0 < seconds ∧ seconds.toInt * 1000000000 < 2 ^ 63 ∧
    now.toInt + seconds.toInt * 1000000000 < 2 ^ 63
  | .setTtlMs now _ milliseconds => 0 < milliseconds ∧ milliseconds.toInt * 1000000 < 2 ^ 63 ∧
    now.toInt + milliseconds.toInt * 1000000 < 2 ^ 63
  | _ => True

/-- Any operation but a sweep. -/
def Op.Unswept : Op → Prop
  | .checkExpirations _ => False
  | _ => True

instance : DecidablePred Op.Fits
  | .setTtl .. | .setTtlMs .. => inferInstanceAs (Decidable (_ ∧ _))
  | .getTtl _ _ | .getTtlMs _ _ | .hasTtl _ | .removeTtl _ | .checkExpirations _ | .size |
    .clear => isTrue trivial

instance : DecidablePred Op.Unswept
  | .checkExpirations _ => isFalse id
  | .setTtl .. | .setTtlMs .. | .getTtl _ _ | .getTtlMs _ _ | .hasTtl _ | .removeTtl _ | .size |
    .clear => isTrue trivial

/-- The clock reading of an operation that takes one. -/
def Op.reading : Op → Option Int64
  | .setTtl now _ _ | .setTtlMs now _ _ | .getTtl now _ | .getTtlMs now _ |
    .checkExpirations now => some now
  | .hasTtl _ | .removeTtl _ | .size | .clear => none

theorem Op.Fits.positive {op : Op} (fits : op.Fits) : op.Positive := by
  cases op with
  | setTtl => exact fits.1
  | setTtlMs => exact fits.1
  | _ => trivial

theorem calculateExpireTime_toInt {now seconds : Int64} (positive : 0 < seconds)
    (duration : seconds.toInt * 1000000000 < 2 ^ 63)
    (expiry : now.toInt + seconds.toInt * 1000000000 < 2 ^ 63) :
    (calculateExpireTime now seconds).toInt = now.toInt + seconds.toInt * 1000000000 := by
  have above : 0 < seconds.toInt := Int64.lt_iff_toInt_lt.mp positive
  have lower := now.le_toInt
  have product : (seconds * 1000000000).toInt = seconds.toInt * 1000000000 :=
    toInt64_mul rfl rfl (by omega) (by omega)
  exact toInt64_add rfl product (by omega) (by omega)

theorem calculateExpireTimeMs_toInt {now milliseconds : Int64} (positive : 0 < milliseconds)
    (duration : milliseconds.toInt * 1000000 < 2 ^ 63)
    (expiry : now.toInt + milliseconds.toInt * 1000000 < 2 ^ 63) :
    (calculateExpireTimeMs now milliseconds).toInt = now.toInt + milliseconds.toInt * 1000000 := by
  have above : 0 < milliseconds.toInt := Int64.lt_iff_toInt_lt.mp positive
  have lower := now.le_toInt
  have product : (milliseconds * 1000000).toInt = milliseconds.toInt * 1000000 :=
    toInt64_mul rfl rfl (by omega) (by omega)
  exact toInt64_add rfl product (by omega) (by omega)

/-- The time left of a recorded expiry time, for a clock that has not gone back far behind it. -/
theorem timeLeft_toInt {expiry : Option Int64} {now unit : Int64} (positive : 0 < unit)
    (near : ∀ expireTime ∈ expiry, expireTime.toInt - now.toInt < 2 ^ 63) :
    (timeLeft expiry now unit).toInt =
      TtlMap.timeLeft (expiry.map Int64.toInt) now.toInt unit.toInt := by
  cases expiry with
  | none => rfl
  | some expireTime =>
    have above : 0 < unit.toInt := Int64.lt_iff_toInt_lt.mp positive
    simp only [timeLeft, Option.map_some, TtlMap.timeLeft]
    by_cases due : expireTime ≤ now
    · rw [if_pos due, if_pos (Int64.le_iff_toInt_le.mp due)]
      rfl
    · -- The difference does not overflow, and it is not the one value that division mistreats.
      have later : now.toInt < expireTime.toInt := Int64.lt_iff_toInt_lt.mp (Int64.not_le.mp due)
      have difference : (expireTime - now).toInt = expireTime.toInt - now.toInt :=
        toInt64_sub rfl rfl (by omega) (near expireTime rfl)
      have notLeast : expireTime - now ≠ Int64.minValue := by
        intro same
        have least : Int64.minValue.toInt = -2 ^ 63 := rfl
        rw [same] at difference
        omega
      -- The quotient of positive numbers is rounded down.
      rw [if_neg due, if_neg (not_le.mpr later), Int64.toInt_div_of_ne_left _ _ notLeast,
        difference, Int.tdiv_eq_ediv_of_nonneg (by omega)]

/-! ### One operation -/

/-- The heap has an entry for each binding. -/
abbrev Records (manager : TTLManager) (map : TtlMap) : Prop :=
  Represents TTLEntry.key (fun entry => entry.expireTime.toInt) manager.expirationHeap map

section Records

variable {manager other : TTLManager} {map : TtlMap} (records : Records manager map)

include records

theorem Stored.recorded {key : Bytes} {expireTime : Int64}
    (stored : Stored manager key expireTime other) :
    Records other (map.insert key expireTime.toInt) := by
  have apart : ∀ entry ∈ others key manager.expirationHeap, entry.key ≠ key := fun _ listed =>
    (mem_others.mp listed).2
  -- In the map, an insertion is an erasure and then an insertion of a new key.
  have inserted := (records.filter_ne key).insert_new ⟨key, expireTime, manager.nextId⟩ apart
  rw [insert_erase_self] at inserted
  exact inserted.perm stored.entries.symm

theorem Dropped.recorded {key : Bytes} (dropped : Dropped manager key other) :
    Records other (map.erase key) :=
  (records.filter_ne key).perm dropped.entries.symm

theorem expiryOf_records (coupled : Coupled manager) (key : Bytes) :
    (manager.expiryOf key).map Int64.toInt = map.lookup key := by
  apply Option.ext
  intro expiry
  rw [records.lookup key expiry, Option.map_eq_some_iff]
  constructor
  · rintro ⟨expireTime, recorded, rfl⟩
    obtain ⟨entry, listed, named, rfl⟩ := coupled.expiryOf_eq_some.mp recorded
    exact ⟨entry, listed, named, rfl⟩
  · rintro ⟨entry, listed, named, rfl⟩
    exact ⟨entry.expireTime, coupled.expiryOf_eq_some.mpr ⟨entry, listed, named, rfl⟩, rfl⟩

theorem timeLeft_records (coupled : Coupled manager) (key : Bytes) {now unit : Int64}
    (positive : 0 < unit)
    (near : ∀ entry ∈ manager.expirationHeap, entry.expireTime.toInt - now.toInt < 2 ^ 63) :
    (timeLeft (manager.expiryOf key) now unit).toInt =
      TtlMap.timeLeft (map.lookup key) now.toInt unit.toInt := by
  have nearKey : ∀ expireTime ∈ manager.expiryOf key, expireTime.toInt - now.toInt < 2 ^ 63 := by
    intro expireTime recorded
    obtain ⟨entry, listed, -, rfl⟩ := coupled.expiryOf_eq_some.mp recorded
    exact near entry listed
  rw [timeLeft_toInt positive nearKey, expiryOf_records records coupled key]

end Records

/-- The state of a run with the operations that it still has to do: they fit, their readings do
not go back, and no expiry time is too far from any of them. -/
structure Related (manager : TTLManager) (map : TtlMap) (ops : List Op) : Prop where
  ready : Ready manager
  records : Records manager map
  fits : ∀ op ∈ ops, op.Fits
  unswept : ∀ op ∈ ops, op.Unswept
  clock : (ops.filterMap Op.reading).Pairwise (· ≤ ·)
  near : ∀ entry ∈ manager.expirationHeap, ∀ now ∈ ops.filterMap Op.reading,
    entry.expireTime.toInt - now.toInt < 2 ^ 63

section Answers

variable {manager : TTLManager} {map : TtlMap} {op : Op} {ops : List Op}
  (related : Related manager map (op :: ops))

include related

theorem Related.timeLeft {now unit : Int64} (reads : op.reading = some now) (key : Bytes)
    (positive : 0 < unit) :
    (timeLeft (manager.expiryOf key) now unit).toInt =
      TtlMap.timeLeft (map.lookup key) now.toInt unit.toInt := by
  apply timeLeft_records related.records related.ready.coupled key positive
  intro entry listed
  exact related.near entry listed now (by simp [reads])

theorem Related.isSome_expiryOf (key : Bytes) :
    (manager.expiryOf key).isSome = (map.lookup key).isSome := by
  rw [← expiryOf_records related.records related.ready.coupled, Option.isSome_map]

end Answers

section Related

variable {manager other : TTLManager} {map map' : TtlMap} {op : Op} {ops : List Op}
  (related : Related manager map (op :: ops)) (ready : Ready other)

include related ready

/-- The conditions on the operations still to come, where nothing was stored. -/
theorem Related.kept (records : Records other map')
    (fewer : other.expirationHeap ⊆ manager.expirationHeap) : Related other map' ops := by
  have readings := (List.sublist_cons_self op ops).filterMap Op.reading
  exact ⟨ready, records, fun op' listed => related.fits op' (List.mem_cons_of_mem op listed),
    fun op' listed => related.unswept op' (List.mem_cons_of_mem op listed),
    related.clock.sublist readings, fun entry listed now reading =>
      related.near entry (fewer listed) now (readings.subset reading)⟩

/-- And where an entry was stored, that counts from the reading of this operation. -/
theorem Related.stored {key : Bytes} {expireTime now : Int64} {duration : Int}
    (stored : Stored manager key expireTime other) (reads : op.reading = some now)
    (expiry : expireTime.toInt = now.toInt + duration) (bound : duration < 2 ^ 63) :
    Related other (map.insert key (now.toInt + duration)) ops := by
  have readings := (List.sublist_cons_self op ops).filterMap Op.reading
  rw [← expiry]
  refine ⟨ready, stored.recorded related.records,
    fun op' listed => related.fits op' (List.mem_cons_of_mem op listed),
    fun op' listed => related.unswept op' (List.mem_cons_of_mem op listed),
    related.clock.sublist readings, ?_⟩
  intro entry listed now' reading
  rcases List.mem_cons.mp (stored.entries.mem_iff.mp listed) with rfl | older
  · -- The clock has not gone back since the reading of this operation.
    have clock := related.clock
    rw [List.filterMap_cons_some reads, List.pairwise_cons] at clock
    have order : now.toInt ≤ now'.toInt := Int64.le_iff_toInt_le.mp (clock.1 now' reading)
    change expireTime.toInt - now'.toInt < 2 ^ 63
    omega
  · exact related.near entry (List.mem_of_mem_filter older) now' (readings.subset reading)

end Related

theorem step_related {manager : TTLManager} {map : TtlMap} {op : Op} {ops : List Op}
    (related : Related manager map (op :: ops)) :
    ∃ answer other, manager.step op = some (answer, other) ∧ answer.told = (map.step op).1 ∧
      Related other (map.step op).2 ops := by
  have ⟨ready, records, _, _, _, _⟩ := related
  have fits : op.Fits := related.fits op List.mem_cons_self
  obtain ⟨answer, other, stepped, ready', effected⟩ := step_spec ready op fits.positive
  refine ⟨answer, other, stepped, ?_⟩
  cases op with
  | setTtl now key seconds =>
    obtain ⟨rfl, stored⟩ := effected
    obtain ⟨positive, duration, expiry⟩ := fits
    exact ⟨rfl, related.stored ready' stored rfl
      (calculateExpireTime_toInt positive duration expiry) duration⟩
  | setTtlMs now key milliseconds =>
    obtain ⟨rfl, stored⟩ := effected
    obtain ⟨positive, duration, expiry⟩ := fits
    exact ⟨rfl, related.stored ready' stored rfl
      (calculateExpireTimeMs_toInt positive duration expiry) duration⟩
  | getTtl now key =>
    obtain ⟨rfl, rfl⟩ := effected
    refine ⟨?_, related.kept ready' records (List.Subset.refl _)⟩
    exact congrArg Told.time (related.timeLeft rfl key (by decide))
  | getTtlMs now key =>
    obtain ⟨rfl, rfl⟩ := effected
    refine ⟨?_, related.kept ready' records (List.Subset.refl _)⟩
    exact congrArg Told.time (related.timeLeft rfl key (by decide))
  | hasTtl key =>
    obtain ⟨rfl, rfl⟩ := effected
    refine ⟨?_, related.kept ready' records (List.Subset.refl _)⟩
    exact congrArg Told.flag (related.isSome_expiryOf key)
  | removeTtl key =>
    obtain ⟨rfl, dropped⟩ := effected
    refine ⟨?_, related.kept ready' (dropped.recorded records) ?_⟩
    · exact congrArg Told.flag (related.isSome_expiryOf key)
    · exact fun entry listed => List.mem_of_mem_filter (dropped.entries.mem_iff.mp listed)
  | checkExpirations now => exact absurd (related.unswept _ List.mem_cons_self) id
  | size =>
    obtain ⟨rfl, rfl⟩ := effected
    refine ⟨?_, related.kept ready' records (List.Subset.refl _)⟩
    rw [TtlMap.step, records.card_keys]
    rfl
  | clear =>
    obtain ⟨rfl, cleared, -⟩ := effected
    refine ⟨rfl, related.kept ready' ?_ ?_⟩
    · rw [Records, cleared]
      exact .nil
    · rw [cleared]
      exact List.nil_subset _

/-! ### Runs -/

/-- The operation changes the TTL of the key. -/
def Op.Touches (key : Bytes) : Op → Prop
  | .setTtl _ other _ | .setTtlMs _ other _ | .removeTtl other => other = key
  | .clear | .checkExpirations _ => True
  | .getTtl _ _ | .getTtlMs _ _ | .hasTtl _ | .size => False

theorem Effected.expiryOf_eq {manager other : TTLManager} {op : Op} {answer : Answer}
    (effected : Effected manager op answer other) (coupled : Coupled manager)
    (coupled' : Coupled other) {key : Bytes} (apart : ¬ op.Touches key) :
    other.expiryOf key = manager.expiryOf key := by
  cases op with
  | setTtl now stored seconds => exact effected.2.expiryOf_eq coupled coupled' (Ne.symm apart)
  | setTtlMs now stored milliseconds =>
    exact effected.2.expiryOf_eq coupled coupled' (Ne.symm apart)
  | removeTtl stored => exact effected.2.expiryOf_eq coupled coupled' (Ne.symm apart)
  | checkExpirations now => exact absurd trivial apart
  | clear => exact absurd trivial apart
  | _ => rw [effected.2]

/-- **Refinement of a map of expiry times.** Without sweeps, with durations that fit and a clock
that does not go back, a run gives the answers of the reference map and records its expiry times,
and a further operation leaves the expiry times of the keys it does not touch. -/
theorem run_matches_map (ops : List Op) (fits : ∀ op ∈ ops, op.Fits)
    (unswept : ∀ op ∈ ops, op.Unswept) (clock : (ops.filterMap Op.reading).Pairwise (· ≤ ·)) :
    ∃ answers manager, runAnswers step initial ops = some (answers, manager) ∧
      answers.map Answer.told = (runInputs TtlMap.step ∅ ops).1 ∧
      (∀ key, (manager.expiryOf key).map Int64.toInt = (runInputs TtlMap.step ∅ ops).2.lookup key) ∧
      ∀ op answer other key, op.Fits → manager.step op = some (answer, other) → ¬ op.Touches key →
        other.expiryOf key = manager.expiryOf key := by
  have start : Related initial ∅ ops := ⟨.initial, .nil, fits, unswept, clock, by
    simp [TTLManager.initial]⟩
  obtain ⟨answers, manager, reached, same, related⟩ :=
    runAnswers_simulates Related (fun _ _ _ _ => step_related) start
  refine ⟨answers, manager, reached, same, expiryOf_records related.records related.ready.coupled,
    fun op answer other key fits stepped apart => ?_⟩
  obtain ⟨answer', other', stepped', ready, effected⟩ := step_spec related.ready op fits.positive
  obtain ⟨rfl, rfl⟩ := Prod.mk.inj (Option.some.inj (stepped'.symm.trans stepped))
  exact effected.expiryOf_eq related.ready.coupled ready.coupled apart

theorem run_matches_map_two :
    ∃ answers manager,
      runAnswers step initial [.setTtl 0 (text "a") 2, .getTtl 500000000 (text "a")] =
          some (answers, manager) ∧
        answers.map Answer.told = (runInputs TtlMap.step ∅
          [.setTtl 0 (text "a") 2, .getTtl 500000000 (text "a")]).1 ∧
        (∀ key, (manager.expiryOf key).map Int64.toInt = (runInputs TtlMap.step ∅
          [.setTtl 0 (text "a") 2, .getTtl 500000000 (text "a")]).2.lookup key) ∧
        ∀ op answer other key, op.Fits → manager.step op = some (answer, other) →
          ¬ op.Touches key → other.expiryOf key = manager.expiryOf key :=
  run_matches_map [.setTtl 0 (text "a") 2, .getTtl 500000000 (text "a")] (by decide) (by decide)
    (by decide)

end TTLManager
end ScuffedRedis
