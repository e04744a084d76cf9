import ScuffedRedis.Foundation.Simulation
import ScuffedRedis.Server.EventLoop

/-!
# Rounds of the event loop

`process_events` asks `select` for the events that are registered, and calls back when it returns.
The mutex is free in between, so other threads may register and remove sockets. Whatever they do,
each event that `select` reports of a socket that is still registered is delivered once, and nothing
else is.
-/
namespace ScuffedRedis

open Foundation

/-- The values of the enumeration. -/
def EventType.mask : EventType → Int32
  | .read => 1
  | .write => 2
  | .errorEvent => 4

namespace EventLoop

/-- The socket is in the set for the event. -/
def FdSets.pairs (fds : FdSets) : Finset (Socket × EventType) :=
  fds.read ×ˢ {.read} ∪ fds.write ×ˢ {.write} ∪ fds.error ×ˢ {.errorEvent}

/-- What `select` returns for these sets. -/
def FdSets.count (fds : FdSets) : Nat := fds.read.card + fds.write.card + fds.error.card

/-- The capacity of an `fd_set`. -/
def fdSetSize : Int := 1024

def fits (fd : Socket) : Bool := 0 ≤ fd.toInt ∧ fd.toInt < fdSetSize

def asks (events : Int32) (event : EventType) : Bool := events &&& event.mask ≠ 0

variable {κ ω : Type}

def asking (loop : EventLoop κ) (event : EventType) : Finset Socket :=
  loop.socketEvents.keys.filter fun fd => (loop.socketEvents.lookup fd).any (asks · event)

/-- `setup_fd_sets`, with the greatest descriptor. Nothing is known once a descriptor was set that
an `fd_set` has no place for. -/
def setupFdSets (loop : EventLoop κ) : Option (FdSets × Int) :=
  let fds : FdSets := ⟨loop.asking .read, loop.asking .write, loop.asking .errorEvent⟩
  if (fds.read ∪ fds.write ∪ fds.error).filter (fun fd => !fits fd) = ∅ then
    some (fds, loop.socketEvents.keys.fold max 0 Int32.toInt)
  else none

/-- The loop between its steps. `selecting` is what `select` was asked for, while it waits. The
counter is a `size_t` in the source, here it never wraps. -/
structure Rounds (κ ω : Type) where
  loop : EventLoop κ
  world : ω
  selecting : Option FdSets
  eventsProcessed : Nat

/-- A call by another thread, or what the loop does next: it goes as far as `select`, which returns
without or with events. -/
inductive LoopEvent (κ : Type) where
  | register (call : Registration κ)
  | processEvents
  | timeout
  | ready (order : List Socket) (fds : FdSets)

namespace Rounds

def initial (world : ω) : Rounds κ ω where
  loop := EventLoop.initial
  world := world
  selecting := none
  eventsProcessed := 0

section Step

variable (behave : κ → Socket → EventType → ω → List (Registration κ) × ω)

/-- The callbacks that were called, and the loop after it. -/
def step (rounds : Rounds κ ω) : LoopEvent κ → Option (List Invocation × Rounds κ ω)
  | .register call => do
    let loop ← (rounds.loop.perform call).toOption
    return ([], { rounds with loop })
  | .processEvents =>
    match rounds.selecting with
    | some _ => none
    | none => do
      let (fds, maxFd) ← rounds.loop.setupFdSets
      -- Without a socket to monitor it only sleeps.
      if maxFd = 0 then return ([], rounds)
      else return ([], { rounds with selecting := some fds })
  | .timeout => rounds.selecting.map fun _ => ([], { rounds with selecting := none })
  | .ready order fds =>
    match rounds.selecting with
    | none => none
    | some _ => do
      let dispatch ←
        (rounds.loop.processSelectEvents behave order fds rounds.world).toOption
      return (dispatch.invoked,
        ⟨dispatch.loop, dispatch.world, none, rounds.eventsProcessed + fds.count⟩)

end Step

/-- Between the steps the mutex is free, and the two maps have the same sockets. -/
structure Sound (loop : EventLoop κ) : Prop where
  free : loop.mutexHeld = false
  same : ∀ fd, fd ∈ loop.socketCallbacks ↔ fd ∈ loop.socketEvents

/-- The event was asked for by a socket of the loop. -/
def Asked (loop : EventLoop κ) (fd : Socket) (event : EventType) : Prop :=
  ∃ events, loop.socketEvents.lookup fd = some events ∧ asks events event = true

/-- What `select` promises: it reports only what it was asked for. -/
def Reports (asked fds : FdSets) : Prop := fds.pairs ⊆ asked.pairs

/-- The callbacks leave the registration alone. -/
def Quiet (behave : κ → Socket → EventType → ω → List (Registration κ) × ω) : Prop :=
  ∀ callback fd event world, (behave callback fd event world).1 = []

/-! ### Registration -/

theorem Sound.initial : Sound (EventLoop.initial : EventLoop κ) :=
  ⟨rfl, fun _ => iff_of_false Finmap.notMem_empty Finmap.notMem_empty⟩

theorem Sound.perform {loop : EventLoop κ} (sound : Sound loop) (call : Registration κ) :
    ∃ next, loop.perform call = .ok next ∧ Sound next := by
  have open' : ¬ loop.mutexHeld = true := by simp [sound.free]
  cases call with
  | addSocket fd events callback =>
    refine ⟨_, if_neg open', rfl, fun other => ?_⟩
    rw [Finmap.mem_insert, Finmap.mem_insert, sound.same]
  | removeSocket fd =>
    refine ⟨_, if_neg open', rfl, fun other => ?_⟩
    rw [Finmap.mem_erase, Finmap.mem_erase, sound.same]
  | updateSocket fd events =>
    refine ⟨_, if_neg open', rfl, fun other => ?_⟩
    by_cases known : fd ∈ loop.socketEvents
    · simp only [if_pos known, Finmap.mem_insert, sound.same]
      exact ⟨.inr, fun other => other.elim (fun same => same ▸ known) id⟩
    · simp only [if_neg known, sound.same]

/-! ### One dispatch -/

section Dispatch

variable {behave : κ → Socket → EventType → ω → List (Registration κ) × ω} {loop : EventLoop κ}

theorem Quiet.passive (quiet : Quiet behave) (callbacks : Finmap fun _ : Socket => κ) (world : ω)
    (calls : List (Socket × EventType)) : Passive behave callbacks world calls := by
  induction calls generalizing world with
  | nil => trivial
  | cons call calls ih => exact fun callback _ => ⟨quiet callback call.1 call.2 world, ih _⟩

/-- A callback for a socket that is registered. -/
def delivered (call : Socket × EventType) : Invocation := ⟨call.1, call.2, true⟩

theorem delivered_injective : Function.Injective delivered := by
  rintro ⟨fd, event⟩ ⟨other, event'⟩ same
  cases same
  rfl

/-- The callbacks that are due, one after the other. -/
theorem processSelectEvents_quiet (quiet : Quiet behave) (sound : Sound loop) {order : List Socket}
    (shows : loop.Shows order) (fds : FdSets) (world : ω) :
    ∃ later, loop.processSelectEvents behave order fds world =
      .ok ⟨loop, later, (order.flatMap (due fds)).map delivered⟩ := by
  obtain ⟨returns, -⟩ := @dispatch_spec κ ω behave
    ⟨{ loop with mutexHeld := true }, world, []⟩ rfl (order.flatMap (due fds))
    (shows.registered fds)
  obtain ⟨later, ran⟩ := returns (quiet.passive _ _ _)
  have released : { loop with mutexHeld := false } = loop := by
    rw [← sound.free]
  refine ⟨later, ?_⟩
  rw [processSelectEvents, if_neg (by simp [sound.free]), foldlM_visit, ran]
  simp only [Except.bind, bind, pure, Except.pure, released, List.nil_append]
  rfl

theorem mem_pairs {fds : FdSets} {fd : Socket} {event : EventType} :
    (fd, event) ∈ fds.pairs ↔ (fd, event) ∈ due fds fd := by
  cases event <;> simp [FdSets.pairs, due]

theorem mem_flatMap_due {order : List Socket} {fds : FdSets} {call : Socket × EventType} :
    call ∈ order.flatMap (due fds) ↔ call.1 ∈ order ∧ call ∈ fds.pairs := by
  rw [List.mem_flatMap]
  constructor
  · rintro ⟨fd, visited, isDue⟩
    obtain rfl := fd_of_mem_due isDue
    exact ⟨visited, mem_pairs.mpr isDue⟩
  · rintro ⟨visited, reported⟩
    exact ⟨call.1, visited, mem_pairs.mp reported⟩

theorem nodup_flatMap_due {order : List Socket} (nodup : order.Nodup) (fds : FdSets) :
    (order.flatMap (due fds)).Nodup := by
  rw [List.nodup_flatMap]
  refine ⟨fun fd _ => ?_, nodup.imp fun other => ?_⟩
  · rw [due]
    split_ifs <;> simp
  · intro call first second
    exact other (fd_of_mem_due first ▸ fd_of_mem_due second)

theorem card_pairs (fds : FdSets) : fds.pairs.card = fds.count := by
  have apart {first second : Finset Socket} {event other : EventType} (differ : event ≠ other) :
      Disjoint (first ×ˢ {event}) (second ×ˢ {other}) :=
    Finset.disjoint_product.mpr (.inr (Finset.disjoint_singleton.mpr differ))
  have readWrite : EventType.read ≠ .write := by decide
  have readError : EventType.read ≠ .errorEvent := by decide
  have writeError : EventType.write ≠ .errorEvent := by decide
  rw [FdSets.pairs, Finset.card_union_of_disjoint, Finset.card_union_of_disjoint (apart readWrite),
    Finset.card_product, Finset.card_product, Finset.card_product]
  · simp [FdSets.count]
  · exact Finset.disjoint_union_left.mpr ⟨apart readError, apart writeError⟩

/-- A dispatch that returns leaves the registration as it was. -/
theorem processSelectEvents_loop (quiet : Quiet behave) (sound : Sound loop) {order : List Socket}
    {fds : FdSets} {world : ω} {dispatch : Dispatch κ ω}
    (ran : loop.processSelectEvents behave order fds world = .ok dispatch) :
    dispatch.loop = loop := by
  have invoked (state next : Dispatch κ ω) (call : Socket × EventType)
      (called : invoke behave call.1 call.2 state = .ok next) : next.loop = state.loop := by
    rw [invoke] at called
    cases found : state.loop.socketCallbacks.lookup call.1 with
    | none =>
      rw [found] at called
      cases called
    | some callback =>
      simp only [found, quiet callback call.1 call.2 state.world, List.foldlM_nil, pure,
        Except.pure, bind, Except.bind] at called
      cases called
      rfl
  rw [processSelectEvents, if_neg (by simp [sound.free]), foldlM_visit] at ran
  cases each : (order.flatMap (due fds)).foldlM
      (fun state call => invoke behave call.1 call.2 state)
      (⟨{ loop with mutexHeld := true }, world, []⟩ : Dispatch κ ω) with
  | error halt =>
    rw [each] at ran
    cases ran
  | ok last =>
    rw [each] at ran
    cases ran
    have same := foldlM_ok_invariant (fun _ last => last.loop = { loop with mutexHeld := true }) rfl
      (fun _ call state next _ kept called => (invoked state next call called).trans kept) each
    simp only [same, ← sound.free]

end Dispatch

/-! ### Runs -/

section Run

variable {behave : κ → Socket → EventType → ω → List (Registration κ) × ω}
  {rounds next : Rounds κ ω} {invoked : List Invocation}

/-- A round that comes to `select`, or only sleeps. -/
theorem step_processEvents (stepped : rounds.step behave .processEvents = some (invoked, next)) :
    (rounds.selecting = none ∧ next = rounds) ∨
    (∃ fds maxFd, rounds.selecting = none ∧ rounds.loop.setupFdSets = some (fds, maxFd) ∧
      invoked = [] ∧ next = { rounds with selecting := some fds }) := by
  rw [Rounds.step] at stepped
  cases idle : rounds.selecting with
  | some asked =>
    rw [idle] at stepped
    cases stepped
  | none =>
    rw [idle] at stepped
    simp only [Option.bind_eq_bind, Option.bind_eq_some_iff, Prod.exists] at stepped
    obtain ⟨fds, maxFd, setUp, stepped⟩ := stepped
    by_cases nobody : maxFd = 0
    · rw [if_pos nobody] at stepped
      cases stepped
      exact .inl ⟨rfl, rfl⟩
    · rw [if_neg nobody] at stepped
      cases stepped
      exact .inr ⟨fds, maxFd, rfl, setUp, rfl, rfl⟩

theorem step_ready {order : List Socket} {fds : FdSets}
    (stepped : rounds.step behave (.ready order fds) = some (invoked, next)) :
    ∃ asked dispatch, rounds.selecting = some asked ∧
      rounds.loop.processSelectEvents behave order fds rounds.world = .ok dispatch ∧
      invoked = dispatch.invoked ∧
      next = ⟨dispatch.loop, dispatch.world, none, rounds.eventsProcessed + fds.count⟩ := by
  rw [Rounds.step] at stepped
  cases waiting : rounds.selecting with
  | none =>
    rw [waiting] at stepped
    cases stepped
  | some asked =>
    cases ran : rounds.loop.processSelectEvents behave order fds rounds.world with
    | error halt =>
      rw [waiting, ran] at stepped
      cases stepped
    | ok dispatch =>
      rw [waiting, ran] at stepped
      cases stepped
      exact ⟨asked, dispatch, rfl, rfl, rfl, rfl⟩

theorem Sound.step (quiet : Quiet behave) (sound : Sound rounds.loop) {event : LoopEvent κ}
    (stepped : rounds.step behave event = some (invoked, next)) : Sound next.loop := by
  cases event with
  | register call =>
    obtain ⟨loop, performed, kept⟩ := sound.perform call
    rw [Rounds.step, performed] at stepped
    cases stepped
    exact kept
  | processEvents =>
    obtain ⟨-, rfl⟩ | ⟨fds, maxFd, -, -, -, rfl⟩ := step_processEvents stepped
    · exact sound
    · exact sound
  | timeout =>
    rw [Rounds.step, Option.map_eq_some_iff] at stepped
    obtain ⟨asked, -, same⟩ := stepped
    cases same
    exact sound
  | ready order fds =>
    obtain ⟨asked, dispatch, -, ran, -, rfl⟩ := step_ready stepped
    rw [processSelectEvents_loop quiet sound ran]
    exact sound

theorem Sound.run (quiet : Quiet behave) (sound : Sound rounds.loop) {events : List (LoopEvent κ)}
    {answers : List (List Invocation)} {last : Rounds κ ω}
    (ran : runAnswers (Rounds.step behave) rounds events = some (answers, last)) :
    Sound last.loop :=
  runAnswers_invariant (fun _ _ rounds => Sound rounds.loop) sound
    (fun _ _ _ _ _ _ _ sound stepped => sound.step quiet stepped) ran

theorem register_selecting {calls : List (Registration κ)} {answers : List (List Invocation)}
    {last : Rounds κ ω}
    (ran : runAnswers (Rounds.step behave) rounds (calls.map LoopEvent.register) =
      some (answers, last)) :
    last.selecting = rounds.selecting ∧ last.eventsProcessed = rounds.eventsProcessed := by
  induction calls generalizing rounds answers with
  | nil =>
    cases ran
    exact ⟨rfl, rfl⟩
  | cons call calls ih =>
    rw [List.map_cons] at ran
    obtain ⟨answer, between, rest, stepped, later, -⟩ := runAnswers_cons_iff.mp ran
    simp only [Rounds.step, Option.bind_eq_bind, Option.bind_eq_some_iff, Option.pure_def,
      Option.some.injEq, Prod.mk.injEq] at stepped
    obtain ⟨loop, -, -, rfl⟩ := stepped
    have kept := ih later
    exact kept

theorem mem_asking {loop : EventLoop κ} {event : EventType} {fd : Socket} :
    fd ∈ loop.asking event ↔ Asked loop fd event := by
  rw [asking, Finset.mem_filter, Finmap.mem_keys, Option.any_eq_true, Asked]
  exact and_iff_right_of_imp fun ⟨events, found, _⟩ => Finmap.mem_of_lookup_eq_some found

/-- What `select` is asked for. -/
theorem mem_pairs_setupFdSets {loop : EventLoop κ} {fds : FdSets} {maxFd : Int}
    (setUp : loop.setupFdSets = some (fds, maxFd)) {fd : Socket} {event : EventType} :
    (fd, event) ∈ fds.pairs ↔ Asked loop fd event := by
  simp only [setupFdSets, Option.ite_none_right_eq_some, Option.some.injEq, Prod.mk.injEq] at setUp
  obtain ⟨-, rfl, -⟩ := setUp
  cases event <;> simp [FdSets.pairs, mem_asking]

/-- **Delivery.** In every run of the loop with callbacks that leave the registration alone, and
with other threads that change it whenever the mutex is free: when `select` returns, the callbacks
that are called are those for the reported events of sockets that are registered still, each of them
once. All of them were asked for when the round began. The count of processed events grows by what
was reported, which is the number of callbacks exactly when no socket with an event was removed
meanwhile. -/
theorem ready_delivers (quiet : Quiet behave) {world : ω} {before : List (LoopEvent κ)}
    {answers others : List (List Invocation)} {began waiting now : Rounds κ ω} {asked fds : FdSets}
    {meanwhile : List (Registration κ)} {order : List Socket}
    (reached :
      runAnswers (Rounds.step behave) (Rounds.initial world) before = some (answers, began))
    (polled : began.step behave .processEvents = some ([], waiting))
    (selecting : waiting.selecting = some asked)
    (registered : runAnswers (Rounds.step behave) waiting (meanwhile.map LoopEvent.register) =
      some (others, now))
    (reports : Reports asked fds) (shows : now.loop.Shows order) :
    ∃ invoked next, now.step behave (.ready order fds) = some (invoked, next) ∧
      (∀ fd event, ⟨fd, event, true⟩ ∈ invoked ↔
        (fd, event) ∈ fds.pairs ∧ fd ∈ now.loop.socketEvents) ∧
      invoked.Nodup ∧
      (∀ call ∈ invoked, call.registered = true ∧ Asked began.loop call.fd call.event) ∧
      next.loop = now.loop ∧ next.eventsProcessed = began.eventsProcessed + fds.count ∧
      invoked.length ≤ fds.count ∧
      (invoked.length = fds.count ↔ ∀ call ∈ fds.pairs, call.1 ∈ now.loop.socketEvents) := by
  have soundBegan : Sound began.loop :=
    Sound.run quiet (show Sound (Rounds.initial world).loop from Sound.initial) reached
  obtain ⟨idle, rfl⟩ | ⟨sets, maxFd, -, setUp, -, rfl⟩ := step_processEvents polled
  · rw [idle] at selecting
    cases selecting
  obtain rfl : sets = asked := Option.some.inj selecting
  have sound : Sound now.loop := Sound.run quiet
    (show Sound ({ began with selecting := some sets } : Rounds κ ω).loop from soundBegan)
      registered
  obtain ⟨stillSelecting, processed⟩ := register_selecting registered
  obtain ⟨later, ran⟩ := processSelectEvents_quiet quiet sound shows fds now.world
  -- The callbacks are due in the order of the map.
  have due_iff (call : Socket × EventType) : call ∈ order.flatMap (due fds) ↔
      call ∈ fds.pairs ∧ call.1 ∈ now.loop.socketEvents := by
    rw [mem_flatMap_due, shows.2, sound.same, and_comm]
  have nodup := nodup_flatMap_due shows.1 fds
  have part : (order.flatMap (due fds)).toFinset ⊆ fds.pairs := fun call isDue =>
    ((due_iff call).mp (List.mem_toFinset.mp isDue)).1
  have card := List.toFinset_card_of_nodup nodup
  refine ⟨(order.flatMap (due fds)).map delivered,
    ⟨now.loop, later, none, now.eventsProcessed + fds.count⟩, ?_, fun fd event => ?_,
    nodup.map delivered_injective, fun call called => ?_, rfl, ?_, ?_, ?_⟩
  · rw [Rounds.step, stillSelecting, ran]
    rfl
  · exact (List.mem_map_of_injective delivered_injective (a := (fd, event))).trans
      (due_iff (fd, event))
  · obtain ⟨⟨fd, event⟩, isDue, rfl⟩ := List.mem_map.mp called
    exact ⟨rfl, (mem_pairs_setupFdSets setUp).mp (reports ((due_iff _).mp isDue).1)⟩
  · rw [processed]
  · rw [List.length_map, ← card, ← card_pairs]
    exact Finset.card_le_card part
  · rw [List.length_map, ← card, ← card_pairs]
    constructor
    · intro all call reported
      have same := Finset.eq_of_subset_of_card_le part all.ge
      rw [← same, List.mem_toFinset] at reported
      exact ((due_iff call).mp reported).2
    · intro all
      refine congrArg Finset.card (part.antisymm fun call reported => ?_)
      exact List.mem_toFinset.mpr ((due_iff call).mpr ⟨reported, all call reported⟩)

end Run

theorem setupFdSets_pair : (pair () ()).setupFdSets = some (⟨{5}, {7}, ∅⟩, 7) := by
  have read : (pair () ()).asking .read = {5} := by decide +kernel
  have write : (pair () ()).asking .write = {7} := by decide +kernel
  have error : (pair () ()).asking .errorEvent = ∅ := by decide +kernel
  have greatest : (pair () ()).socketEvents.keys.fold max 0 Int32.toInt = 7 := by decide +kernel
  have within : (({5} : Finset Socket) ∪ {7} ∪ ∅).filter (fun fd => !fits fd) = ∅ := by
    decide +kernel
  simp only [setupFdSets, read, write, error, greatest, if_pos within]

/-- Both sockets are ready, and the second is removed before its event is delivered. -/
theorem ready_delivers_removed :
    ∃ (now : Rounds Unit Unit) (invoked : List Invocation) (next : Rounds Unit Unit),
      now.loop.socketEvents.keys = {5} ∧
      now.step (fun _ _ _ world => ([], world)) (.ready [5] ⟨{5}, {7}, ∅⟩) =
        some (invoked, next) ∧
      (∀ fd event, ⟨fd, event, true⟩ ∈ invoked ↔
        (fd, event) ∈ (⟨{5}, {7}, ∅⟩ : FdSets).pairs ∧ fd ∈ now.loop.socketEvents) ∧
      invoked.Nodup ∧
      (∀ call ∈ invoked, call.registered = true ∧ Asked (pair () ()) call.fd call.event) ∧
      next.loop = now.loop ∧ next.eventsProcessed = 0 + (⟨{5}, {7}, ∅⟩ : FdSets).count ∧
      invoked.length ≤ (⟨{5}, {7}, ∅⟩ : FdSets).count ∧
      (invoked.length = (⟨{5}, {7}, ∅⟩ : FdSets).count ↔
        ∀ call ∈ (⟨{5}, {7}, ∅⟩ : FdSets).pairs, call.1 ∈ now.loop.socketEvents) := by
  have began : (⟨pair () (), (), none, 0⟩ : Rounds Unit Unit).step
      (fun _ _ _ world => ([], world)) .processEvents =
        some ([], ⟨pair () (), (), some ⟨{5}, {7}, ∅⟩, 0⟩) := by
    rw [Rounds.step, setupFdSets_pair]
    rfl
  have shows : ({ pair () () with
      socketCallbacks := (pair () ()).socketCallbacks.erase 7
      socketEvents := (pair () ()).socketEvents.erase 7 } : EventLoop Unit).Shows [5] := by
    refine ⟨by decide, fun fd => ?_⟩
    rw [List.mem_singleton, Finmap.mem_erase, pair, Finmap.mem_insert, Finmap.mem_insert]
    constructor
    · rintro rfl
      exact ⟨by decide, .inr (.inl rfl)⟩
    · rintro ⟨other, rfl | rfl | absent⟩
      · exact absurd rfl other
      · rfl
      · exact absurd absent Finmap.notMem_empty
  obtain ⟨invoked, next, delivers⟩ := ready_delivers (fun _ _ _ _ => rfl)
    (show runAnswers (Rounds.step fun _ _ _ (world : Unit) => ([], world)) (Rounds.initial ())
      [.register (.addSocket 5 1 ()), .register (.addSocket 7 2 ())] =
        some (_, ⟨pair () (), (), none, 0⟩) from rfl)
    began rfl
    (show runAnswers (Rounds.step _) _ ([.removeSocket 7].map LoopEvent.register) =
      some ([[]], ⟨{ pair () () with
        socketCallbacks := (pair () ()).socketCallbacks.erase 7
        socketEvents := (pair () ()).socketEvents.erase 7 }, (), some ⟨{5}, {7}, ∅⟩, 0⟩) from rfl)
    (Finset.Subset.refl _) shows
  exact ⟨_, invoked, next, by decide +kernel, delivers⟩

end Rounds
end EventLoop
end ScuffedRedis
