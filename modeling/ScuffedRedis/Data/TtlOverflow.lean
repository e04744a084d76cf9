import ScuffedRedis.Data.TtlMutex
import ScuffedRedis.Data.TtlRefinement

/-!
# Expiry times that do not fit

An expiry time is a clock reading plus a duration in nanoseconds, in 64 bits. Nothing checks the
duration before the product and the sum are taken.
-/
namespace ScuffedRedis
namespace TTLManager

open Foundation

/-- The recorded expiry time of the key is this one, and still to come. -/
def ExpiresAt (manager : TTLManager) (now : Int64) (key : Bytes) (expiry : Int) : Prop :=
  ∃ expireTime, manager.expiryOf key = some expireTime ∧ expireTime.toInt = expiry ∧
    now < expireTime

/-! ### Calls -/

theorem next_eq_none (manager : TTLManager) {op : Op} (removal : ¬ op.Positive) :
    manager.next op = none := by
  cases op with
  | setTtl now key seconds =>
    simp [next, setTtl_blocked manager now key (Int64.not_lt.mp removal), Outcome.manager?]
  | setTtlMs now key milliseconds =>
    simp [next, setTtlMs_blocked manager now key (Int64.not_lt.mp removal), Outcome.manager?]
  | _ => exact absurd trivial removal

theorem ready_of_afterCall {manager other : TTLManager} {call : Call} (ready : Ready manager)
    (returned : manager.afterCall call = some other) : Ready other := by
  have positive : call.Positive := by
    cases call with
    | op op =>
      by_contra removal
      simp [afterCall, next_eq_none manager removal] at returned
    | getStats now => trivial
  obtain ⟨last, returned', ready'⟩ := afterCall_ready ready positive
  simp_all

/-! ### One expiry time -/

section Exact

variable {now duration : Int64} (nonneg : 0 ≤ now) (positive : 0 < duration)

include nonneg positive

theorem calculateExpireTime_exact_iff :
    (calculateExpireTime now duration).toInt = now.toInt + duration.toInt * 1000000000 ↔
      now.toInt + duration.toInt * 1000000000 < 2 ^ 63 := by
  have clock : 0 ≤ now.toInt := Int64.le_iff_toInt_le.mp nonneg
  constructor
  · intro exact
    have bound := (calculateExpireTime now duration).toInt_lt
    omega
  · intro fits
    exact calculateExpireTime_toInt positive (by omega) fits

theorem calculateExpireTimeMs_exact_iff :
    (calculateExpireTimeMs now duration).toInt = now.toInt + duration.toInt * 1000000 ↔
      now.toInt + duration.toInt * 1000000 < 2 ^ 63 := by
  have clock : 0 ≤ now.toInt := Int64.le_iff_toInt_le.mp nonneg
  constructor
  · intro exact
    have bound := (calculateExpireTimeMs now duration).toInt_lt
    omega
  · intro fits
    exact calculateExpireTimeMs_toInt positive (by omega) fits

/-- An exact expiry time is to come, and the whole duration is left until then. -/
theorem timeLeft_of_exact {expireTime unit : Int64} (units : 0 < unit)
    (exact : expireTime.toInt = now.toInt + duration.toInt * unit.toInt) :
    now < expireTime ∧ timeLeft (some expireTime) now unit = duration := by
  have clock : 0 ≤ now.toInt := Int64.le_iff_toInt_le.mp nonneg
  have units' : 0 < unit.toInt := Int64.lt_iff_toInt_lt.mp units
  have more : 0 < duration.toInt * unit.toInt := mul_pos (Int64.lt_iff_toInt_lt.mp positive) units'
  have bound := expireTime.toInt_lt
  refine ⟨Int64.lt_iff_toInt_lt.mpr (by omega), Int64.toInt_inj.mp ?_⟩
  have near : ∀ recorded ∈ some expireTime, recorded.toInt - now.toInt < 2 ^ 63 := by
    rintro _ ⟨⟩
    omega
  have pending : ¬ expireTime.toInt ≤ now.toInt := by omega
  rw [timeLeft_toInt units near, Option.map_some, TtlMap.timeLeft, if_neg pending, exact,
    add_sub_cancel_left, Int.mul_ediv_cancel _ (by omega)]

theorem Stored.expiresAt_iff {manager other : TTLManager} {key : Bytes} {expireTime : Int64}
    {expiry : Int} (stored : Stored manager key expireTime other) (ready : Ready other)
    (unit : Int64) (units : 0 < unit) (due : expiry = now.toInt + duration.toInt * unit.toInt) :
    other.ExpiresAt now key expiry ∧ other.remaining now key unit = .returned duration other ↔
      expireTime.toInt = expiry := by
  have recorded := stored.expiryOf_self ready.coupled
  constructor
  · rintro ⟨⟨found, recorded', exact, -⟩, -⟩
    simp_all
  · intro exact
    obtain ⟨later, left⟩ := timeLeft_of_exact nonneg positive units (exact.trans due)
    exact ⟨⟨expireTime, recorded, exact, later⟩, by rw [remaining_eq ready, recorded, left]⟩

end Exact

/-! ### Runs -/

/-- **Expiry times are exact as long as they fit.** In every state that a run reaches, with a clock
reading that is not negative, a positive duration is stored; the expiry time recorded for it is the
exact one, with the whole duration left, exactly when that time is below `2 ^ 63`. -/
theorem run_expiresAt_iff (calls : List Call) {manager : TTLManager}
    (reached : runCalls initial calls = some manager) {now : Int64} (nonneg : 0 ≤ now) (key : Bytes)
    {duration : Int64} (positive : 0 < duration) :
    (∃ other, manager.setTtl now key duration = .returned true other ∧
      (other.ExpiresAt now key (now.toInt + duration.toInt * 1000000000) ∧
        other.getTtl now key = .returned duration other ↔
          now.toInt + duration.toInt * 1000000000 < 2 ^ 63)) ∧
    ∃ other, manager.setTtlMs now key duration = .returned true other ∧
      (other.ExpiresAt now key (now.toInt + duration.toInt * 1000000) ∧
        other.getTtlMs now key = .returned duration other ↔
          now.toInt + duration.toInt * 1000000 < 2 ^ 63) := by
  have ready : Ready manager :=
    foldlM_some_invariant (fun _ _ _ => ready_of_afterCall) Ready.initial reached
  constructor
  · obtain ⟨other, call, ready', stored⟩ :=
      locked_stored ready positive key (calculateExpireTime now duration)
    have exact := stored.expiresAt_iff nonneg positive ready' 1000000000 (by decide) rfl
    exact ⟨other, call, exact.trans (calculateExpireTime_exact_iff nonneg positive)⟩
  · obtain ⟨other, call, ready', stored⟩ :=
      locked_stored ready positive key (calculateExpireTimeMs now duration)
    have exact := stored.expiresAt_iff nonneg positive ready' 1000000 (by decide) rfl
    exact ⟨other, call, exact.trans (calculateExpireTimeMs_exact_iff nonneg positive)⟩

theorem run_expiresAt_iff_ten :
    runCalls initial [] = some initial ∧ (0 : Int64) ≤ 5 ∧ (0 : Int64) < 10 ∧
      (∃ other, initial.setTtl 5 (text "a") 10 = .returned true other ∧
        (other.ExpiresAt 5 (text "a") ((5 : Int64).toInt + (10 : Int64).toInt * 1000000000) ∧
          other.getTtl 5 (text "a") = .returned 10 other ↔
            (5 : Int64).toInt + (10 : Int64).toInt * 1000000000 < 2 ^ 63)) ∧
      ∃ other, initial.setTtlMs 5 (text "a") 10 = .returned true other ∧
        (other.ExpiresAt 5 (text "a") ((5 : Int64).toInt + (10 : Int64).toInt * 1000000) ∧
          other.getTtlMs 5 (text "a") = .returned 10 other ↔
            (5 : Int64).toInt + (10 : Int64).toInt * 1000000 < 2 ^ 63) :=
  ⟨rfl, by decide, by decide, run_expiresAt_iff [] rfl (by decide) (text "a") (by decide)⟩

/-- A TTL of 9223372037 seconds, set at time 0, wraps around to a time before it: the key is
expired at once. -/
theorem long_ttl_expires_at_once : ¬ ∀ (calls : List Call) (manager other : TTLManager)
    (now : Int64) (key : Bytes) (seconds : Int64),
    runCalls initial calls = some manager → 0 ≤ now → 0 < seconds →
      manager.setTtl now key seconds = .returned true other →
        other.ExpiresAt now key (now.toInt + seconds.toInt * 1000000000) ∧
          other.getTtl now key = .returned seconds other := by
  intro exact
  obtain ⟨-, left⟩ := exact [] initial _ 0 (text "a") 9223372037 rfl (by decide) (by decide) rfl
  cases left

end TTLManager
end ScuffedRedis
