import ScuffedRedis.Data.TtlMutex

/-!
# The background checker

`TTLManagerSingleton` owns a manager and a thread that calls `check_expirations` while `running_`
is set. Any thread may call the manager; one thread, the owner, starts and stops the checker. The
actions of all threads interleave: a call of the manager is one action, as it holds the mutex, and
the loop of the checker has an action for its test, for its sweep and for the end of its sleep.
-/
namespace ScuffedRedis

open Foundation TTLManager

/-- Where the background thread is: before the test of `running_`, before `check_expirations`, in
its sleep, or past the loop. -/
inductive Position where
  | test
  | check
  | asleep
  | done
  deriving DecidableEq

/-- An `std::thread` that is joinable when it is assigned or destroyed aborts the program. -/
inductive Phase where
  | live
  | ended
  | aborted
  deriving DecidableEq

/-- `thread` is the position of `background_thread_` while that is joinable, and `joining` is
whether the owner waits for it in `stop_background_checker`. -/
structure TTLManagerSingleton where
  manager : TTLManager
  running : Bool
  thread : Option Position
  joining : Bool
  phase : Phase

namespace TTLManagerSingleton

def initial : TTLManagerSingleton where
  manager := .initial
  running := false
  thread := none
  joining := false
  phase := .live

/-- A call of the manager by some thread. One that does not return waits with the mutex held. -/
def called (singleton : TTLManagerSingleton) (op : Op) : Option Answer × TTLManagerSingleton :=
  match singleton.manager.step op with
  | some (answer, manager) => (some answer, { singleton with manager := manager })
  | none => (none, { singleton with manager := { singleton.manager with mutexHeld := true } })

def startBackgroundChecker (singleton : TTLManagerSingleton) : TTLManagerSingleton :=
  if singleton.running then singleton
  else if singleton.thread.isSome then { singleton with running := true, phase := .aborted }
  else { singleton with running := true, thread := some .test }

/-- Up to the point where the owner waits. -/
def stopBackgroundChecker (singleton : TTLManagerSingleton) : TTLManagerSingleton :=
  if singleton.running then
    { singleton with running := false, joining := singleton.thread.isSome }
  else singleton

/-- The destructor, which is the default one. -/
def destroy (singleton : TTLManagerSingleton) : TTLManagerSingleton :=
  { singleton with phase := if singleton.thread.isSome then .aborted else .ended }

inductive Action where
  | call (op : Op)
  /-- Of the owner; `joined` is the end of its wait. -/
  | start
  | stop
  | joined
  | exit
  /-- Of the background thread. -/
  | test
  | sweep (now : Int64)
  | wake

/-- One action with what it returns, if its thread is there and need not wait. -/
def act (singleton : TTLManagerSingleton) : Action → Option (Option Answer × TTLManagerSingleton)
  | .call op => some (singleton.called op)
  | .start =>
    if singleton.joining then none else some (none, singleton.startBackgroundChecker)
  | .stop => if singleton.joining then none else some (none, singleton.stopBackgroundChecker)
  | .joined =>
    if singleton.joining ∧ singleton.thread = some .done then
      some (none, { singleton with thread := none, joining := false })
    else none
  | .exit => if singleton.joining then none else some (none, singleton.destroy)
  | .test =>
    if singleton.thread = some .test then
      some (none, { singleton with thread := some (if singleton.running then .check else .done) })
    else none
  | .sweep now =>
    if singleton.thread = some .check then
      (singleton.manager.step (.checkExpirations now)).map fun swept =>
        (some swept.1, { singleton with manager := swept.2, thread := some .asleep })
    else none
  | .wake =>
    if singleton.thread = some .asleep then some (none, { singleton with thread := some .test })
    else none

def step (singleton : TTLManagerSingleton) (action : Action) :
    Option (Option Answer × TTLManagerSingleton) :=
  if singleton.phase = .live then singleton.act action else none

/-! ### What a history says -/

def switched (on : Bool) : Action → Bool
  | .start => true
  | .stop => false
  | _ => on

/-- The last of the starts and stops is a start. -/
def started (actions : List Action) : Bool := actions.foldl switched false

theorem started_concat (actions : List Action) (action : Action) :
    started (actions ++ [action]) = switched (started actions) action := by
  rw [started, List.foldl_append]
  rfl

/-- Neither a start, nor a sweep, nor the end of a stop. -/
def Action.Within : Action → Prop
  | .start | .sweep _ | .joined => False
  | _ => True

/-- The checker is started, or it is being stopped and has not swept since. -/
def InService (actions : List Action) : Prop :=
  started actions = true ∨ ∃ before within, actions = before ++ .stop :: within ∧
    started before = true ∧ ∀ action ∈ within, action.Within

/-- Some caller waits for the mutex that it holds. -/
def Hung (actions : List Action) : Prop := ∃ op, .call op ∈ actions ∧ ¬ op.Positive

/-- The operation of the manager that an action is. -/
def Action.op? : Action → Option Op
  | .call op => some op
  | .sweep now => some (.checkExpirations now)
  | _ => none

/-- The operations of the manager that returned, with their answers, in their order. -/
def served (actions : List Action) (answers : List (Option Answer)) : List (Op × Answer) :=
  (actions.zip answers).filterMap fun acted =>
    acted.1.op?.bind fun op => acted.2.map fun answer => (op, answer)

theorem served_concat {actions : List Action} {answers : List (Option Answer)}
    (lengths : answers.length = actions.length) (action : Action) (answer : Option Answer) :
    served (actions ++ [action]) (answers ++ [answer]) = served actions answers ++
      (action.op?.bind fun op => answer.map fun answer => (op, answer)).toList := by
  rw [served, List.zip_append lengths.symm, List.filterMap_append]
  congr 1

/-! ### Calls of the manager -/

theorem step_held {manager : TTLManager} (held : manager.mutexHeld = true) (op : Op) :
    manager.step op = none := by
  have blocked {α : Type} (body : TTLManager → Outcome α) : manager.locked body = .blocked :=
    if_pos held
  cases op <;>
    simp only [TTLManager.step, setTtl, setTtlMs, getTtl, getTtlMs, remaining, hasTtl, removeTtl,
      checkExpirations, TTLManager.size, TTLManager.clear, blocked, answered]

/-- A call with a positive duration returns while the mutex is free; all others wait for ever. -/
theorem called_spec {singleton : TTLManagerSingleton} (coupled : Coupled singleton.manager)
    (op : Op) :
    (∃ answer other, singleton.manager.mutexHeld = false ∧ op.Positive ∧
        singleton.manager.step op = some (answer, other) ∧ Ready other ∧
        singleton.called op = (some answer, { singleton with manager := other })) ∨
      (singleton.manager.mutexHeld = true ∨ ¬ op.Positive) ∧ singleton.called op =
        (none, { singleton with manager := { singleton.manager with mutexHeld := true } }) := by
  by_cases waits : singleton.manager.mutexHeld = true ∨ ¬ op.Positive
  · refine .inr ⟨waits, ?_⟩
    have blocked : singleton.manager.step op = none :=
      waits.elim (fun held => step_held held op) (step_eq_none _)
    rw [called, blocked]
  · rw [not_or, not_not, Bool.not_eq_true] at waits
    obtain ⟨free, positive⟩ := waits
    obtain ⟨answer, other, stepped, ready, -⟩ := step_spec ⟨coupled, free⟩ op positive
    refine .inl ⟨answer, other, free, positive, stepped, ready, ?_⟩
    rw [called, stepped]

/-! ### The invariant -/

/-- What holds of the owner, the thread and the manager after these actions. -/
structure Kept (actions : List Action) (answers : List (Option Answer))
    (singleton : TTLManagerSingleton) : Prop where
  lengths : answers.length = actions.length
  coupled : Coupled singleton.manager
  held : singleton.manager.mutexHeld = true ↔ Hung actions
  serial : runAnswers TTLManager.step .initial ((served actions answers).map Prod.fst) =
    some ((served actions answers).map Prod.snd, { singleton.manager with mutexHeld := false })
  running : singleton.running = started actions
  idle : singleton.joining = false → singleton.thread.isSome = singleton.running
  joining : singleton.joining = true →
    singleton.running = false ∧ singleton.thread.isSome = true ∧ singleton.phase = .live
  service : singleton.thread = some .check → InService actions
  aborted : singleton.phase = .aborted ↔
    ∃ before, actions = before ++ [.exit] ∧ started before = true

theorem Kept.initial : Kept [] [] initial where
  lengths := rfl
  coupled := .initial
  held := by simp [Hung, TTLManagerSingleton.initial, TTLManager.initial]
  serial := rfl
  running := rfl
  idle _ := rfl
  joining impossible := by cases impossible
  service impossible := by cases impossible
  aborted := by simp [TTLManagerSingleton.initial]

variable {actions : List Action} {answers : List (Option Answer)}
  {singleton next : TTLManagerSingleton} {action : Action}

theorem InService.within (service : InService actions) (within : action.Within)
    (other : action ≠ .stop) : InService (actions ++ [action]) := by
  rcases service with on | ⟨before, middle, rfl, on, quiet⟩
  · refine .inl ?_
    rw [started_concat, on]
    cases action with
    | stop => exact absurd rfl other
    | _ => rfl
  · refine .inr ⟨before, middle ++ [action], by simp, on, ?_⟩
    rw [List.forall_mem_append, List.forall_mem_singleton]
    exact ⟨quiet, within⟩

theorem hung_concat : Hung (actions ++ [action]) ↔
    Hung actions ∨ ∃ op, action = .call op ∧ ¬ op.Positive := by
  simp only [Hung, List.mem_append, List.mem_singleton, or_and_right, exists_or, eq_comm]

/-- Only the destructor can abort. -/
theorem aborted_concat (live : singleton.phase = .live) (other : action ≠ .exit) :
    singleton.phase = .aborted ↔
      ∃ before, actions ++ [action] = before ++ [.exit] ∧ started before = true := by
  rw [live]
  refine iff_of_false (by decide) ?_
  rintro ⟨before, same, -⟩
  exact other (List.singleton_inj.mp (List.append_inj' same rfl).2)

/-- An action that leaves the manager alone adds nothing to what was served. -/
theorem Kept.serial_same (kept : Kept actions answers singleton) (silent : action.op? = none) :
    runAnswers TTLManager.step .initial
        ((served (actions ++ [action]) (answers ++ [none])).map Prod.fst) =
      some ((served (actions ++ [action]) (answers ++ [none])).map Prod.snd,
        { singleton.manager with mutexHeld := false }) := by
  rw [served_concat kept.lengths, silent]
  simpa using kept.serial

theorem Kept.held_same (kept : Kept actions answers singleton)
    (silent : ∀ op, action ≠ .call op) :
    singleton.manager.mutexHeld = true ↔ Hung (actions ++ [action]) := by
  rw [kept.held, hung_concat, or_iff_left]
  rintro ⟨op, same, -⟩
  exact silent op same

theorem Kept.length_concat (kept : Kept actions answers singleton) (answer : Option Answer) :
    (answers ++ [answer]).length = (actions ++ [action]).length := by
  rw [List.length_append, List.length_append, kept.lengths]
  rfl

/-! ### One action -/

/-- An operation that returned is one more of the serial run. -/
theorem Kept.serial_served {op : Op} {answer : Answer} {other : TTLManager}
    (kept : Kept actions answers singleton) (acts : action.op? = some op)
    (free : singleton.manager.mutexHeld = false)
    (stepped : singleton.manager.step op = some (answer, other)) (ready : Ready other) :
    runAnswers TTLManager.step .initial
        ((served (actions ++ [action]) (answers ++ [some answer])).map Prod.fst) =
      some ((served (actions ++ [action]) (answers ++ [some answer])).map Prod.snd,
        { other with mutexHeld := false }) := by
  have before : { singleton.manager with mutexHeld := false } = singleton.manager := by
    rw [← free]
  have after : { other with mutexHeld := false } = other := by
    rw [← ready.free]
  rw [served_concat kept.lengths, acts, after]
  simp only [Option.bind_some, Option.map_some, Option.toList_some, List.map_append,
    List.map_cons, List.map_nil]
  refine runAnswers_concat.mpr ⟨_, _, answer, kept.serial, ?_, rfl⟩
  rw [before, stepped]

theorem Kept.call (kept : Kept actions answers singleton) (live : singleton.phase = .live)
    (op : Op) :
    Kept (actions ++ [.call op]) (answers ++ [(singleton.called op).1])
      (singleton.called op).2 := by
  have within : Action.Within (.call op) := trivial
  have running : singleton.running = started (actions ++ [.call op]) := by
    rw [started_concat, kept.running]
    rfl
  rcases called_spec kept.coupled op with
    ⟨answer, other, free, positive, stepped, ready, same⟩ | ⟨waits, same⟩
  · rw [same]
    exact {
      lengths := kept.length_concat _
      coupled := ready.coupled
      held := by
        rw [hung_concat, ← kept.held, free, ready.free]
        simp [positive]
      serial := kept.serial_served rfl free stepped ready
      running := running
      idle := kept.idle
      joining := kept.joining
      service := fun checks => (kept.service checks).within within (by simp)
      aborted := aborted_concat live (by simp) }
  · rw [same]
    exact {
      lengths := kept.length_concat _
      coupled := kept.coupled.withMutex true
      held := by
        rw [hung_concat, ← kept.held]
        simpa using waits
      serial := by
        rw [served_concat kept.lengths]
        simpa [Action.op?] using kept.serial
      running := running
      idle := kept.idle
      joining := kept.joining
      service := fun checks => (kept.service checks).within within (by simp)
      aborted := aborted_concat live (by simp) }

/-- While the owner does not wait, the thread is joinable exactly when the checker is started. -/
theorem Kept.start (kept : Kept actions answers singleton) (live : singleton.phase = .live)
    (free : singleton.joining = false) :
    Kept (actions ++ [.start]) (answers ++ [none]) singleton.startBackgroundChecker := by
  have running : started (actions ++ [.start]) = true := by rw [started_concat]; rfl
  rw [startBackgroundChecker]
  split_ifs with on joinable
  · exact {
      lengths := kept.length_concat _
      coupled := kept.coupled
      held := kept.held_same (by simp)
      serial := kept.serial_same rfl
      running := on.trans running.symm
      idle := kept.idle
      joining := kept.joining
      service := fun _ => .inl running
      aborted := aborted_concat live (by simp) }
  · exact absurd (joinable.symm.trans (kept.idle free)) (Ne.symm on)
  · exact {
      lengths := kept.length_concat _
      coupled := kept.coupled
      held := kept.held_same (by simp)
      serial := kept.serial_same rfl
      running := running.symm
      idle := fun _ => rfl
      joining := fun waits => by rw [free] at waits; cases waits
      service := fun checks => by cases checks
      aborted := aborted_concat (by exact live) (by simp) }

theorem Kept.stop (kept : Kept actions answers singleton) (live : singleton.phase = .live)
    (free : singleton.joining = false) :
    Kept (actions ++ [.stop]) (answers ++ [none]) singleton.stopBackgroundChecker := by
  have stopped : started (actions ++ [.stop]) = false := by rw [started_concat]; rfl
  rw [stopBackgroundChecker]
  split_ifs with on
  · exact {
      lengths := kept.length_concat _
      coupled := kept.coupled
      held := kept.held_same (by simp)
      serial := kept.serial_same rfl
      running := stopped.symm
      idle := fun quiet => by exact quiet
      joining := fun waits => ⟨rfl, waits, live⟩
      service := fun _ => .inr ⟨actions, [], rfl, kept.running.symm.trans on, by simp⟩
      aborted := aborted_concat (by exact live) (by simp) }
  · have off : singleton.running = false := by simpa using on
    exact {
      lengths := kept.length_concat _
      coupled := kept.coupled
      held := kept.held_same (by simp)
      serial := kept.serial_same rfl
      running := off.trans stopped.symm
      idle := kept.idle
      joining := kept.joining
      service := fun checks => by
        -- There is no thread that could be about to sweep.
        have idle := kept.idle free
        rw [checks, off] at idle
        cases idle
      aborted := aborted_concat live (by simp) }

theorem Kept.exit (kept : Kept actions answers singleton) (free : singleton.joining = false) :
    Kept (actions ++ [.exit]) (answers ++ [none]) singleton.destroy where
  lengths := kept.length_concat _
  coupled := kept.coupled
  held := kept.held_same (by simp)
  serial := kept.serial_same rfl
  running := by
    rw [started_concat]
    exact kept.running
  idle := kept.idle
  joining waits := by
    have waiting : singleton.joining = true := waits
    rw [free] at waiting
    cases waiting
  service checks := (kept.service checks).within trivial (by simp)
  aborted := by
    have joinable : singleton.thread.isSome = started actions :=
      (kept.idle free).trans kept.running
    rw [destroy, joinable]
    constructor
    · intro aborts
      refine ⟨actions, rfl, ?_⟩
      by_contra off
      rw [if_neg off] at aborts
      cases aborts
    · rintro ⟨before, same, on⟩
      obtain ⟨rfl, -⟩ := List.append_inj' same rfl
      rw [if_pos on]

theorem Kept.joined (kept : Kept actions answers singleton) (live : singleton.phase = .live)
    (waits : singleton.joining = true) :
    Kept (actions ++ [.joined]) (answers ++ [none])
      { singleton with thread := none, joining := false } where
  lengths := kept.length_concat _
  coupled := kept.coupled
  held := kept.held_same (by simp)
  serial := kept.serial_same rfl
  running := by
    rw [started_concat]
    exact kept.running
  idle _ := (kept.joining waits).1.symm
  joining := by simp
  service := by simp
  aborted := aborted_concat (by exact live) (by simp)

/-- A move of the thread that changes nothing else. -/
theorem Kept.moved (kept : Kept actions answers singleton) (live : singleton.phase = .live)
    (joinable : singleton.thread.isSome = true) (within : action.Within)
    (silent : action.op? = none) (same : switched (started actions) action = started actions)
    (other : action ≠ .exit) {position : Position}
    (service : position = .check → InService (actions ++ [action])) :
    Kept (actions ++ [action]) (answers ++ [none])
      { singleton with thread := some position } where
  lengths := kept.length_concat _
  coupled := kept.coupled
  held := kept.held_same (by rintro op rfl; cases silent)
  serial := kept.serial_same silent
  running := by
    rw [started_concat, same]
    exact kept.running
  idle free := by
    rw [← kept.idle free, joinable]
    rfl
  joining waits := ⟨(kept.joining waits).1, rfl, live⟩
  service checks := service (Option.some.inj checks)
  aborted := aborted_concat (by exact live) other

theorem Kept.test (kept : Kept actions answers singleton) (live : singleton.phase = .live)
    (tests : singleton.thread = some .test) :
    Kept (actions ++ [.test]) (answers ++ [none])
      { singleton with thread := some (if singleton.running then .check else .done) } := by
  refine kept.moved live (by rw [tests]; rfl) (show Action.Within .test from trivial) rfl rfl
    (by simp) fun checks => .inl ?_
  rw [started_concat]
  change started actions = true
  rw [← kept.running]
  by_contra off
  rw [if_neg off] at checks
  cases checks

theorem Kept.wake (kept : Kept actions answers singleton) (live : singleton.phase = .live)
    (sleeps : singleton.thread = some .asleep) :
    Kept (actions ++ [.wake]) (answers ++ [none]) { singleton with thread := some .test } :=
  kept.moved live (by rw [sleeps]; rfl) (show Action.Within .wake from trivial) rfl rfl (by simp)
    (by simp)

theorem Kept.sweep {now : Int64} {answer : Answer} {other : TTLManager}
    (kept : Kept actions answers singleton) (live : singleton.phase = .live)
    (checks : singleton.thread = some .check)
    (stepped : singleton.manager.step (.checkExpirations now) = some (answer, other)) :
    Kept (actions ++ [.sweep now]) (answers ++ [some answer])
      { singleton with manager := other, thread := some .asleep } := by
  have free : singleton.manager.mutexHeld = false := by
    by_contra held
    rw [step_held (by simpa using held)] at stepped
    cases stepped
  obtain ⟨_, _, same, ready, -⟩ :=
    step_spec ⟨kept.coupled, free⟩ (.checkExpirations now) trivial
  rw [stepped, Option.some.injEq, Prod.mk.injEq] at same
  obtain ⟨rfl, rfl⟩ := same
  exact {
    lengths := kept.length_concat _
    coupled := ready.coupled
    held := by
      rw [hung_concat, ← kept.held, free, ready.free]
      simp
    serial := kept.serial_served rfl free stepped ready
    running := by
      rw [started_concat]
      exact kept.running
    idle := fun waits => by
      rw [← kept.idle waits, checks]
      rfl
    joining := fun waits => ⟨(kept.joining waits).1, rfl, live⟩
    service := by simp
    aborted := aborted_concat (by exact live) (by simp) }

theorem Kept.step {answer : Option Answer} (kept : Kept actions answers singleton)
    (stepped : singleton.step action = some (answer, next)) :
    Kept (actions ++ [action]) (answers ++ [answer]) next := by
  rw [TTLManagerSingleton.step] at stepped
  split at stepped
  next live =>
    cases action <;> rw [act] at stepped
    case call op =>
      have called := kept.call live op
      rw [Option.some.inj stepped] at called
      exact called
    all_goals split at stepped
    case start.isFalse free =>
      cases stepped
      exact kept.start live (by simpa using free)
    case stop.isFalse free =>
      cases stepped
      exact kept.stop live (by simpa using free)
    case exit.isFalse free =>
      cases stepped
      exact kept.exit (by simpa using free)
    case joined.isTrue waits =>
      cases stepped
      exact kept.joined live waits.1
    case test.isTrue tests =>
      cases stepped
      exact kept.test live tests
    case wake.isTrue sleeps =>
      cases stepped
      exact kept.wake live sleeps
    case sweep.isTrue now checks =>
      obtain ⟨⟨answer', other⟩, ran, same⟩ := Option.map_eq_some_iff.mp stepped
      cases same
      exact kept.sweep live checks ran
    all_goals cases stepped
  next => cases stepped

/-! ### Runs -/

variable {last : TTLManagerSingleton}

theorem run_kept (ran : runAnswers step initial actions = some (answers, last)) :
    Kept actions answers last :=
  runAnswers_invariant Kept .initial (fun _ _ _ _ _ _ _ kept stepped => kept.step stepped) ran

/-- **The checker is one more caller of the manager, and only in its service.** In every
interleaving, the operations that returned are a run of the manager with the answers they gave.
The checker sweeps only while it is started, or once more while it is being stopped. The program
aborts exactly when the singleton is destroyed while the checker is started. -/
theorem run_serial (actions : List Action) (answers : List (Option Answer))
    (last : TTLManagerSingleton) (ran : runAnswers step initial actions = some (answers, last)) :
    runAnswers TTLManager.step .initial ((served actions answers).map Prod.fst) =
        some ((served actions answers).map Prod.snd, { last.manager with mutexHeld := false }) ∧
      (∀ before now after, actions = before ++ .sweep now :: after → InService before) ∧
      (last.phase = .aborted ↔ ∃ before, actions = before ++ [.exit] ∧ started before = true) := by
  have kept := run_kept ran
  refine ⟨kept.serial, ?_, kept.aborted⟩
  rintro before now after rfl
  obtain ⟨earlier, between, later, reached, going, -⟩ := runAnswers_append.mp ran
  obtain ⟨answer, next, rest, stepped, -, -⟩ := runAnswers_cons_iff.mp going
  -- The thread is about to sweep.
  rw [step] at stepped
  split at stepped
  next =>
    rw [act] at stepped
    split at stepped
    next checks => exact (run_kept reached).service checks
    next => cases stepped
  next => cases stepped

/-- The checker is started, sweeps, and is still started at the end of the program. -/
theorem run_serial_one : ∃ last,
    runAnswers step initial [.start, .test, .sweep 0, .exit] =
        some ([none, none, some (.expired 0 []), none], last) ∧
      last.phase = .aborted ∧
      (runAnswers TTLManager.step .initial
          ((served [.start, .test, .sweep 0, .exit]
            [none, none, some (.expired 0 []), none]).map Prod.fst) =
        some ((served [.start, .test, .sweep 0, .exit]
            [none, none, some (.expired 0 []), none]).map Prod.snd,
          { last.manager with mutexHeld := false }) ∧
        (∀ before now after, [.start, .test, .sweep 0, .exit] = before ++ .sweep now :: after →
          InService before) ∧
        (last.phase = .aborted ↔ ∃ before,
          [.start, .test, .sweep 0, .exit] = before ++ [.exit] ∧ started before = true)) :=
  ⟨_, rfl, rfl, run_serial [.start, .test, .sweep 0, .exit]
    [none, none, some (.expired 0 []), none] _ rfl⟩

/-! ### The end of a stop -/

def Action.ofThread : Action → Bool
  | .test | .sweep _ | .wake => true
  | _ => false

/-- The actions of the thread up to the end of its loop, once it is to stop. -/
def remainingMoves (singleton : TTLManagerSingleton) : Nat :=
  match singleton.thread with
  | some .check => 3
  | some .asleep => 2
  | some .test => 1
  | _ => 0

theorem remainingMoves_le (singleton : TTLManagerSingleton) : singleton.remainingMoves ≤ 3 := by
  unfold remainingMoves
  split <;> omega

theorem called_frame (singleton : TTLManagerSingleton) (op : Op) :
    (singleton.called op).2.thread = singleton.thread ∧
      (singleton.called op).2.running = singleton.running ∧
      (singleton.called op).2.joining = singleton.joining := by
  rw [called]
  split <;> exact ⟨rfl, rfl, rfl⟩

/-- While the owner waits, only the thread moves on, and it moves towards its end. -/
theorem step_waiting {answer : Option Answer} (waits : singleton.joining = true)
    (off : singleton.running = false) (other : action ≠ .joined)
    (stepped : singleton.step action = some (answer, next)) :
    next.joining = true ∧ next.running = false ∧ singleton.remainingMoves =
      next.remainingMoves + if action.ofThread then 1 else 0 := by
  rw [step] at stepped
  split at stepped
  next =>
    cases action with
    | call op =>
      obtain ⟨thread, running, joining⟩ := called_frame singleton op
      rw [Option.some.inj stepped] at thread running joining
      refine ⟨joining.trans waits, running.trans off, ?_⟩
      rw [remainingMoves, remainingMoves, thread]
      rfl
    | start | stop | exit =>
      rw [act, if_pos waits] at stepped
      cases stepped
    | joined => exact absurd rfl other
    | test =>
      rw [act] at stepped
      split at stepped
      next tests =>
        cases stepped
        refine ⟨waits, off, ?_⟩
        simp [remainingMoves, tests, off, Action.ofThread]
      next => cases stepped
    | sweep now =>
      rw [act] at stepped
      split at stepped
      next checks =>
        obtain ⟨swept, -, same⟩ := Option.map_eq_some_iff.mp stepped
        cases same
        refine ⟨waits, off, ?_⟩
        simp [remainingMoves, checks, Action.ofThread]
      next => cases stepped
    | wake =>
      rw [act] at stepped
      split at stepped
      next sleeps =>
        cases stepped
        refine ⟨waits, off, ?_⟩
        simp [remainingMoves, sleeps, Action.ofThread]
      next => cases stepped
  next => cases stepped

/-- Whatever else happens, the thread has at most three actions left. -/
theorem moves_waiting {moves : List Action} (waits : singleton.joining = true)
    (off : singleton.running = false) (unjoined : .joined ∉ moves)
    (ran : runAnswers step singleton moves = some (answers, last)) :
    last.joining = true ∧ last.running = false ∧
      singleton.remainingMoves = last.remainingMoves + moves.countP Action.ofThread := by
  induction moves generalizing singleton answers with
  | nil =>
    cases ran
    exact ⟨waits, off, rfl⟩
  | cons move moves ih =>
    obtain ⟨answer, next, rest, stepped, later, -⟩ := runAnswers_cons_iff.mp ran
    rw [List.mem_cons, not_or] at unjoined
    obtain ⟨waits', off', moved⟩ := step_waiting waits off (Ne.symm unjoined.1) stepped
    obtain ⟨joining, running, rest⟩ := ih waits' off' unjoined.2 later
    refine ⟨joining, running, ?_⟩
    rw [moved, rest, List.countP_cons]
    omega

/-- The thread's own actions can take it to the end of its loop, where the owner waits for it. -/
def Ends (singleton : TTLManagerSingleton) : Prop :=
  ∃ moves answers next, (∀ move ∈ moves, move.ofThread = true) ∧
    runAnswers step singleton moves = some (answers, next) ∧
      ∃ final, next.step .joined = some (none, final)

theorem Ends.step {answer : Option Answer} (own : action.ofThread = true)
    (stepped : singleton.step action = some (answer, next)) (ends : next.Ends) :
    singleton.Ends := by
  obtain ⟨moves, answers, last, others, ran, final⟩ := ends
  exact ⟨action :: moves, answer :: answers, last, List.forall_mem_cons.mpr ⟨own, others⟩,
    runAnswers_cons stepped ran, final⟩

section Ends

variable (live : singleton.phase = .live) (waits : singleton.joining = true)

include live waits

theorem ends_done (done : singleton.thread = some .done) : singleton.Ends := by
  have joins : singleton.step .joined =
      some (none, { singleton with thread := none, joining := false }) := by
    rw [TTLManagerSingleton.step, if_pos live, act, if_pos ⟨waits, done⟩]
  exact ⟨[], [], singleton, List.forall_mem_nil _, rfl, _, joins⟩

theorem ends_test (off : singleton.running = false) (tests : singleton.thread = some .test) :
    singleton.Ends := by
  have stepped : singleton.step .test = some (none, { singleton with thread := some .done }) := by
    rw [TTLManagerSingleton.step, if_pos live, act, if_pos tests, off]
    rfl
  have ends : Ends { singleton with thread := some .done } := ends_done live waits rfl
  exact ends.step rfl stepped

theorem ends_asleep (off : singleton.running = false)
    (sleeps : singleton.thread = some .asleep) : singleton.Ends := by
  have stepped : singleton.step .wake = some (none, { singleton with thread := some .test }) := by
    rw [TTLManagerSingleton.step, if_pos live, act, if_pos sleeps]
  have ends : Ends { singleton with thread := some .test } := ends_test live waits off rfl
  exact ends.step rfl stepped

theorem ends_check (off : singleton.running = false) (checks : singleton.thread = some .check)
    (ready : Ready singleton.manager) : singleton.Ends := by
  obtain ⟨answer, other, swept, -⟩ := step_spec ready (.checkExpirations 0) trivial
  have stepped : singleton.step (.sweep 0) =
      some (some answer, { singleton with manager := other, thread := some .asleep }) := by
    rw [TTLManagerSingleton.step, if_pos live, act, if_pos checks, swept]
    rfl
  have ends : Ends { singleton with manager := other, thread := some .asleep } :=
    ends_asleep live waits off rfl
  exact ends.step rfl stepped

end Ends

/-- A sweep cannot begin while the mutex is held. -/
theorem not_ends (live : singleton.phase = .live) (checks : singleton.thread = some .check)
    (held : singleton.manager.mutexHeld = true) : ¬ singleton.Ends := by
  rintro ⟨moves, answers, next, own, ran, final, joins⟩
  cases moves with
  | nil =>
    cases ran
    rw [TTLManagerSingleton.step, if_pos live, act, if_neg (by simp [checks])] at joins
    cases joins
  | cons move moves =>
    obtain ⟨answer, between, rest, stepped, -, -⟩ := runAnswers_cons_iff.mp ran
    rw [TTLManagerSingleton.step, if_pos live] at stepped
    cases move with
    | test =>
      rw [act, if_neg (by simp [checks])] at stepped
      cases stepped
    | wake =>
      rw [act, if_neg (by simp [checks])] at stepped
      cases stepped
    | sweep now =>
      rw [act, if_pos checks, step_held held] at stepped
      cases stepped
    | call | start | stop | joined | exit => cases own _ List.mem_cons_self

/-- **When a stop returns.** While the owner waits for the thread, the wait can end exactly unless
the thread is about to sweep and some caller waits for the mutex that it holds itself. In any case
the thread has at most three actions left, whatever the other threads do. -/
theorem stop_returns_iff (actions : List Action) (answers : List (Option Answer))
    (last : TTLManagerSingleton) (ran : runAnswers step initial actions = some (answers, last))
    (waits : last.joining = true) :
    (last.Ends ↔ ¬ (last.thread = some .check ∧ Hung actions)) ∧
      ∀ moves answers' next, .joined ∉ moves →
        runAnswers step last moves = some (answers', next) →
        moves.countP Action.ofThread ≤ 3 := by
  have kept := run_kept ran
  obtain ⟨off, joinable, live⟩ := kept.joining waits
  refine ⟨⟨?_, ?_⟩, ?_⟩
  · rintro ends ⟨checks, hung⟩
    exact not_ends live checks (kept.held.mpr hung) ends
  · intro goesOn
    obtain ⟨position, found⟩ := Option.isSome_iff_exists.mp joinable
    cases position with
    | done => exact ends_done live waits found
    | test => exact ends_test live waits off found
    | asleep => exact ends_asleep live waits off found
    | check =>
      have free : last.manager.mutexHeld = false := by
        by_contra held
        exact goesOn ⟨found, kept.held.mp (by simpa using held)⟩
      exact ends_check live waits off found ⟨kept.coupled, free⟩
  · intro moves answers' next unjoined moved
    obtain ⟨-, -, count⟩ := moves_waiting waits off unjoined moved
    have := last.remainingMoves_le
    omega

/-- A stop right after the start. -/
theorem stop_returns_iff_early : ∃ last,
    runAnswers step initial [.start, .stop] = some ([none, none], last) ∧ last.joining = true ∧
      (last.Ends ↔ ¬ (last.thread = some .check ∧ Hung [.start, .stop])) ∧
      ∀ moves answers' next, .joined ∉ moves →
        runAnswers step last moves = some (answers', next) →
        moves.countP Action.ofThread ≤ 3 :=
  ⟨_, rfl, rfl, stop_returns_iff [.start, .stop] [none, none] _ rfl rfl⟩

end TTLManagerSingleton
end ScuffedRedis
