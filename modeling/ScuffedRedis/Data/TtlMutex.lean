import ScuffedRedis.Data.TtlContents

/-!
# The mutex of the TTL manager

Every public operation locks `mutex_`. The setters call the public `remove_ttl` for a duration
that is not positive, with the mutex already held.
-/
namespace ScuffedRedis
namespace TTLManager

open Foundation

/-- A call of the public interface, `get_stats` included. -/
inductive Call where
  | op (op : Op)
  | getStats (now : Int64)

/-- The manager after a call, when it returns. -/
def afterCall (manager : TTLManager) : Call → Option TTLManager
  | .op op => manager.next op
  | .getStats now => (manager.getStats now).manager?

/-- The manager after a run of calls that all return. -/
def runCalls (manager : TTLManager) (calls : List Call) : Option TTLManager :=
  calls.foldlM afterCall manager

/-- The key whose TTL a setter is to remove, for a duration that is not positive. -/
def Op.removed : Op → Option Bytes
  | .setTtl _ key seconds => if seconds ≤ 0 then some key else none
  | .setTtlMs _ key milliseconds => if milliseconds ≤ 0 then some key else none
  | _ => none

/-- The call returns with the mutex released. A setter that is to remove a TTL says whether there
was one, and the entries of the other keys are those that are left. -/
def Completes (manager : TTLManager) : Call → Prop
  | .op op => ∃ answer other, manager.step op = some (answer, other) ∧ other.mutexHeld = false ∧
      ∀ key, op.removed = some key → answer = .flag (manager.expiryOf key).isSome ∧
        other.expirationHeap.Perm (others key manager.expirationHeap)
  | .getStats now => ∃ stats other,
      manager.getStats now = .returned stats other ∧ other.mutexHeld = false

/-- No setter is asked to remove a TTL. -/
def Call.Positive : Call → Prop
  | .op operation => operation.Positive
  | .getStats _ => True

/-! ### One call -/

/-- `remove_ttl` waits for the mutex that its caller holds. -/
theorem removeTtl_blocked {manager : TTLManager} (held : manager.mutexHeld = true) (key : Bytes) :
    manager.removeTtl key = .blocked := by
  rw [removeTtl, locked, if_pos held]

theorem locked_blocked {α : Type} {manager : TTLManager} {body : TTLManager → Outcome α}
    (inner : body { manager with mutexHeld := true } = .blocked) :
    manager.locked body = .blocked := by
  rw [locked]
  split
  · rfl
  · rw [inner]

theorem setTtl_blocked (manager : TTLManager) (now : Int64) (key : Bytes) {seconds : Int64}
    (removal : seconds ≤ 0) : manager.setTtl now key seconds = .blocked := by
  apply locked_blocked
  rw [if_pos removal, removeTtl_blocked rfl]

theorem setTtlMs_blocked (manager : TTLManager) (now : Int64) (key : Bytes) {milliseconds : Int64}
    (removal : milliseconds ≤ 0) : manager.setTtlMs now key milliseconds = .blocked := by
  apply locked_blocked
  rw [if_pos removal, removeTtl_blocked rfl]

theorem removed_eq_none {op : Op} (positive : op.Positive) : op.removed = none := by
  cases op with
  | setTtl now key seconds => exact if_neg (Int64.not_le.mpr positive)
  | setTtlMs now key milliseconds => exact if_neg (Int64.not_le.mpr positive)
  | _ => rfl

/-- A setter that is to remove a TTL never returns. -/
theorem step_eq_none (manager : TTLManager) {op : Op} (removal : ¬ op.Positive) :
    manager.step op = none := by
  cases op with
  | setTtl now key seconds =>
    rw [step, setTtl_blocked manager now key (Int64.not_lt.mp removal)]
    rfl
  | setTtlMs now key milliseconds =>
    rw [step, setTtlMs_blocked manager now key (Int64.not_lt.mp removal)]
    rfl
  | _ => exact absurd trivial removal

theorem getStats_eq {manager : TTLManager} (ready : Ready manager) (now : Int64) :
    ∃ stats, manager.getStats now = .returned stats manager := by
  have call : manager.getStats now = _ :=
    locked_eq ready.free _ { manager with mutexHeld := true } rfl
  exact ⟨_, call.trans (congrArg (Outcome.returned _) ready.unlocked)⟩

theorem Completes.positive {manager : TTLManager} {call : Call}
    (completes : Completes manager call) : call.Positive := by
  cases call with
  | op op =>
    obtain ⟨answer, other, stepped, -⟩ := completes
    by_contra removal
    rw [step_eq_none manager removal] at stepped
    cases stepped
  | getStats now => trivial

theorem completes_of_positive {manager : TTLManager} (ready : Ready manager) {call : Call}
    (positive : call.Positive) : Completes manager call := by
  cases call with
  | op op =>
    obtain ⟨answer, other, stepped, ready', -⟩ := step_spec ready op positive
    refine ⟨answer, other, stepped, ready'.free, fun key removed => ?_⟩
    rw [removed_eq_none positive] at removed
    cases removed
  | getStats now =>
    obtain ⟨stats, call⟩ := getStats_eq ready now
    exact ⟨stats, manager, call, ready.free⟩

theorem afterCall_ready {manager : TTLManager} {call : Call} (ready : Ready manager)
    (positive : call.Positive) : ∃ other, manager.afterCall call = some other ∧ Ready other := by
  cases call with
  | op op =>
    obtain ⟨other, stepped, ready', -⟩ := next_spec ready op positive
    exact ⟨other, stepped, ready'⟩
  | getStats now =>
    obtain ⟨stats, call⟩ := getStats_eq ready now
    exact ⟨manager, by rw [afterCall, call]; rfl, ready⟩

/-! ### Runs -/

/-- **No call of a run waits for itself exactly when no setter of the run is asked to remove a
TTL.** -/
theorem run_completes_iff (calls : List Call) :
    (∀ before call after, calls = before ++ call :: after →
      ∃ manager, runCalls initial before = some manager ∧ Completes manager call) ↔
      ∀ call ∈ calls, call.Positive := by
  constructor
  · intro completes call listed
    obtain ⟨before, after, split⟩ := List.append_of_mem listed
    obtain ⟨manager, -, completed⟩ := completes before call after split
    exact completed.positive
  · intro positive before call after split
    subst split
    rw [List.forall_mem_append, List.forall_mem_cons] at positive
    obtain ⟨manager, ran, ready⟩ := foldlM_invariant afterCall Call.Positive
      (fun manager call => afterCall_ready) Ready.initial positive.1
    exact ⟨manager, ran, completes_of_positive ready positive.2.1⟩

/-- The first call of all is to remove a TTL. -/
theorem removal_never_completes : ¬ ∀ calls : List Call,
    ∀ before call after, calls = before ++ call :: after →
      ∃ manager, runCalls initial before = some manager ∧ Completes manager call := by
  intro completes
  obtain ⟨manager, -, completed⟩ := completes [.op (.setTtl 0 (text "k") 0)] [] _ [] rfl
  exact absurd completed.positive (show ¬ (0 : Int64) < 0 by decide)

end TTLManager
end ScuffedRedis
