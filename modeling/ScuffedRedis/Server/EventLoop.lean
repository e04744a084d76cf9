import ScuffedRedis.Server.Connection

/-!
# The event loop

`process_select_events` calls back for the sockets that `select` found ready, and it holds
`socket_mutex_` meanwhile. The calls that change the registration lock the same mutex, which is not
recursive. A callback is given by its name and by a function that says, for a state of the world,
which of these calls it makes and what the world is afterwards.
-/
namespace ScuffedRedis

/-- `socket_t`. -/
abbrev Socket := Int32

inductive EventType where
  | read
  | write
  | errorEvent
  deriving DecidableEq, Repr

/-- A call of a callback on the loop. -/
inductive Registration (κ : Type) where
  | addSocket (fd : Socket) (events : Int32) (callback : κ)
  | removeSocket (fd : Socket)
  | updateSocket (fd : Socket) (events : Int32)

structure EventLoop (κ : Type) where
  socketCallbacks : Finmap fun _ : Socket => κ
  socketEvents : Finmap fun _ : Socket => Int32
  mutexHeld : Bool

namespace EventLoop

/-- How a call may not return: the thread waits for a mutex that it holds itself, or it uses an
entry of the map that was erased. -/
inductive Halt where
  | blocked
  | erased
  deriving DecidableEq

/-- The sockets that `select` found ready: `read_fds`, `write_fds` and `error_fds`. `FD_ISSET` is
membership here for every descriptor, also for one that is not below `FD_SETSIZE`. -/
structure FdSets where
  read : Finset Socket
  write : Finset Socket
  error : Finset Socket

/-- A callback that was called, and whether its socket was registered then. -/
structure Invocation where
  fd : Socket
  event : EventType
  registered : Bool
  deriving DecidableEq

structure Dispatch (κ ω : Type) where
  loop : EventLoop κ
  world : ω
  invoked : List Invocation

variable {κ ω : Type}

def initial : EventLoop κ where
  socketCallbacks := ∅
  socketEvents := ∅
  mutexHeld := false

/-! ### Registration -/

/-- `std::lock_guard` around the body of a call. -/
def locked (loop : EventLoop κ) (body : EventLoop κ → EventLoop κ) : Except Halt (EventLoop κ) :=
  if loop.mutexHeld then .error .blocked
  else .ok { body { loop with mutexHeld := true } with mutexHeld := false }

def addSocket (loop : EventLoop κ) (fd : Socket) (events : Int32) (callback : κ) :
    Except Halt (EventLoop κ) :=
  loop.locked fun loop =>
    { loop with
      socketCallbacks := loop.socketCallbacks.insert fd callback
      socketEvents := loop.socketEvents.insert fd events }

def removeSocket (loop : EventLoop κ) (fd : Socket) : Except Halt (EventLoop κ) :=
  loop.locked fun loop =>
    { loop with
      socketCallbacks := loop.socketCallbacks.erase fd
      socketEvents := loop.socketEvents.erase fd }

def updateSocket (loop : EventLoop κ) (fd : Socket) (events : Int32) : Except Halt (EventLoop κ) :=
  loop.locked fun loop =>
    if fd ∈ loop.socketEvents then
      { loop with socketEvents := loop.socketEvents.insert fd events }
    else loop

def perform (loop : EventLoop κ) : Registration κ → Except Halt (EventLoop κ)
  | .addSocket fd events callback => loop.addSocket fd events callback
  | .removeSocket fd => loop.removeSocket fd
  | .updateSocket fd events => loop.updateSocket fd events

/-! ### Dispatch -/

/-- The map shows its entries in this order. -/
def Shows (loop : EventLoop κ) (order : List Socket) : Prop :=
  order.Nodup ∧ ∀ fd, fd ∈ order ↔ fd ∈ loop.socketCallbacks

section Dispatch

variable (behave : κ → Socket → EventType → ω → List (Registration κ) × ω)

/-- `callback(fd, event)`, where `callback` is a reference into the map. -/
def invoke (fd : Socket) (event : EventType) (state : Dispatch κ ω) :
    Except Halt (Dispatch κ ω) :=
  match state.loop.socketCallbacks.lookup fd with
  | none => .error .erased
  | some callback => do
    let (calls, world) := behave callback fd event state.world
    let loop ← calls.foldlM perform state.loop
    let registered := decide (fd ∈ state.loop.socketCallbacks)
    return ⟨loop, world, state.invoked ++ [⟨fd, event, registered⟩]⟩

/-- The body of the loop. -/
def visit (fds : FdSets) (state : Dispatch κ ω) (fd : Socket) : Except Halt (Dispatch κ ω) := do
  let state ← if fd ∈ fds.read then invoke behave fd .read state else pure state
  let state ← if fd ∈ fds.write then invoke behave fd .write state else pure state
  if fd ∈ fds.error then invoke behave fd .errorEvent state else pure state

/-- `order` is the order in which the map shows its entries. -/
def processSelectEvents (loop : EventLoop κ) (order : List Socket) (fds : FdSets) (world : ω) :
    Except Halt (Dispatch κ ω) :=
  if loop.mutexHeld then .error .blocked
  else do
    let state ← order.foldlM (visit behave fds) ⟨{ loop with mutexHeld := true }, world, []⟩
    return { state with loop := { state.loop with mutexHeld := false } }

/-- The dispatch returns, and it has called back only for sockets that were registered then. -/
def Tolerates (loop : EventLoop κ) (order : List Socket) (fds : FdSets) (world : ω) : Prop :=
  ∃ last, loop.processSelectEvents behave order fds world = .ok last ∧
    ∀ invocation ∈ last.invoked, invocation.registered = true

/-! ### Passive callbacks -/

/-- The callbacks that are due for a socket. -/
def due (fds : FdSets) (fd : Socket) : List (Socket × EventType) :=
  (if fd ∈ fds.read then [(fd, .read)] else []) ++
    (if fd ∈ fds.write then [(fd, .write)] else []) ++
    if fd ∈ fds.error then [(fd, .errorEvent)] else []

theorem fd_of_mem_due {fds : FdSets} {fd : Socket} {call : Socket × EventType}
    (isDue : call ∈ due fds fd) : call.1 = fd := by
  simp only [due, List.mem_append, List.mem_ite_nil_right, List.mem_singleton] at isDue
  rcases isDue with (⟨-, rfl⟩ | ⟨-, rfl⟩) | ⟨-, rfl⟩ <;> rfl

/-- No callback calls the loop, when they are called one after the other. -/
def Passive (callbacks : Finmap fun _ : Socket => κ) : ω → List (Socket × EventType) → Prop
  | _, [] => True
  | world, (fd, event) :: rest =>
    ∀ callback, callbacks.lookup fd = some callback →
      (behave callback fd event world).1 = [] ∧
        Passive callbacks (behave callback fd event world).2 rest

theorem perform_blocked {loop : EventLoop κ} (held : loop.mutexHeld = true)
    (call : Registration κ) : loop.perform call = .error .blocked := by
  cases call with
  | addSocket fd events callback => exact if_pos held
  | removeSocket fd => exact if_pos held
  | updateSocket fd events => exact if_pos held

/-- The mutex is held while a callback runs, so its first call of the loop blocks. -/
theorem invoke_eq {state : Dispatch κ ω} (held : state.loop.mutexHeld = true) {fd : Socket}
    {callback : κ} (registered : state.loop.socketCallbacks.lookup fd = some callback)
    (event : EventType) :
    invoke behave fd event state =
      if (behave callback fd event state.world).1 = [] then
        .ok ⟨state.loop, (behave callback fd event state.world).2,
          state.invoked ++ [⟨fd, event, true⟩]⟩
      else .error .blocked := by
  have present : fd ∈ state.loop.socketCallbacks := Finmap.mem_of_lookup_eq_some registered
  by_cases quiet : (behave callback fd event state.world).1 = []
  · rw [if_pos quiet]
    simp [invoke, registered, quiet, present, pure, bind, Except.bind, Except.pure]
  · obtain ⟨call, rest, calls⟩ := List.exists_cons_of_ne_nil quiet
    have stops : (behave callback fd event state.world).1.foldlM perform state.loop =
        .error .blocked := by
      rw [calls, List.foldlM_cons, perform_blocked held]
      rfl
    rw [if_neg quiet]
    simp [invoke, registered, stops, bind, Except.bind]

/-- One socket after the other is one due callback after the other. -/
theorem visit_eq (fds : FdSets) (state : Dispatch κ ω) (fd : Socket) :
    visit behave fds state fd =
      (due fds fd).foldlM (fun state call => invoke behave call.1 call.2 state) state := by
  unfold visit due
  split_ifs <;> simp

theorem foldlM_visit (fds : FdSets) (order : List Socket) (state : Dispatch κ ω) :
    order.foldlM (visit behave fds) state =
      (order.flatMap (due fds)).foldlM
        (fun state call => invoke behave call.1 call.2 state) state := by
  induction order generalizing state with
  | nil => rfl
  | cons fd rest ih =>
    rw [List.foldlM_cons, List.flatMap_cons, List.foldlM_append, visit_eq]
    congr 1
    funext next
    exact ih next

/-- Passive callbacks are all called, with the registration as it was. Otherwise the first of them
that calls the loop blocks. -/
theorem dispatch_spec {state : Dispatch κ ω} (held : state.loop.mutexHeld = true)
    {calls : List (Socket × EventType)}
    (registered : ∀ call ∈ calls, call.1 ∈ state.loop.socketCallbacks) :
    (Passive behave state.loop.socketCallbacks state.world calls →
      ∃ world, calls.foldlM (fun state call => invoke behave call.1 call.2 state) state =
        .ok ⟨state.loop, world,
          state.invoked ++ calls.map fun call => ⟨call.1, call.2, true⟩⟩) ∧
    (¬ Passive behave state.loop.socketCallbacks state.world calls →
      calls.foldlM (fun state call => invoke behave call.1 call.2 state) state =
        .error .blocked) := by
  induction calls generalizing state with
  | nil => exact ⟨fun _ => ⟨state.world, by simp; rfl⟩, fun active => absurd trivial active⟩
  | cons call rest ih =>
    obtain ⟨fd, event⟩ := call
    rw [List.forall_mem_cons] at registered
    obtain ⟨callback, found⟩ := Finmap.mem_iff.mp registered.1
    have first := invoke_eq behave held found event
    by_cases quiet : (behave callback fd event state.world).1 = []
    · -- The others are called with the same registration, in the world after this one.
      rw [if_pos quiet] at first
      obtain ⟨returns, blocks⟩ := @ih ⟨state.loop, (behave callback fd event state.world).2,
        state.invoked ++ [⟨fd, event, true⟩]⟩ held registered.2
      have later : Passive behave state.loop.socketCallbacks state.world ((fd, event) :: rest) ↔
          Passive behave state.loop.socketCallbacks
            (behave callback fd event state.world).2 rest := by
        simp [Passive, found, quiet]
      rw [List.foldlM_cons, first, later]
      refine ⟨fun passive => ?_, blocks⟩
      obtain ⟨world, ran⟩ := returns passive
      refine ⟨world, ran.trans ?_⟩
      simp
    · rw [if_neg quiet] at first
      rw [List.foldlM_cons, first]
      refine ⟨fun passive => ?_, fun _ => rfl⟩
      exact absurd (passive callback found).1 quiet

/-- The sockets that are visited are registered. -/
theorem Shows.registered {loop : EventLoop κ} {order : List Socket} (shows : loop.Shows order)
    (fds : FdSets) : ∀ call ∈ order.flatMap (due fds), call.1 ∈ loop.socketCallbacks := by
  intro call isDue
  obtain ⟨fd, visited, inDue⟩ := List.mem_flatMap.mp isDue
  rw [fd_of_mem_due inDue, ← shows.2]
  exact visited

section Free

variable {loop : EventLoop κ} (free : loop.mutexHeld = false) {order : List Socket}
  (shows : loop.Shows order) (fds : FdSets) (world : ω)

include free shows

theorem processSelectEvents_returns
    (passive : Passive behave loop.socketCallbacks world (order.flatMap (due fds))) :
    Tolerates behave loop order fds world := by
  obtain ⟨returns, -⟩ := @dispatch_spec κ ω behave
    ⟨{ loop with mutexHeld := true }, world, []⟩ rfl (order.flatMap (due fds))
    (shows.registered fds)
  obtain ⟨later, ran⟩ := returns passive
  rw [Tolerates, processSelectEvents, free, if_neg Bool.false_ne_true, foldlM_visit, ran]
  refine ⟨_, rfl, ?_⟩
  intro invocation called
  obtain ⟨call, -, rfl⟩ := List.mem_map.mp called
  rfl

theorem processSelectEvents_blocks
    (active : ¬ Passive behave loop.socketCallbacks world (order.flatMap (due fds))) :
    loop.processSelectEvents behave order fds world = .error .blocked := by
  obtain ⟨-, blocks⟩ := @dispatch_spec κ ω behave
    ⟨{ loop with mutexHeld := true }, world, []⟩ rfl (order.flatMap (due fds))
    (shows.registered fds)
  rw [processSelectEvents, free, if_neg Bool.false_ne_true, foldlM_visit, blocks active]
  rfl

/-- **Dispatch tolerates exactly passive callbacks.** -/
theorem tolerates_iff :
    Tolerates behave loop order fds world ↔
      Passive behave loop.socketCallbacks world (order.flatMap (due fds)) := by
  constructor
  · rintro ⟨last, ran, -⟩
    by_contra active
    rw [processSelectEvents_blocks behave free shows fds world active] at ran
    cases ran
  · exact processSelectEvents_returns behave free shows fds world

end Free

end Dispatch

/-- A loop with one socket, which waits for bytes to read. -/
def single (fd : Socket) (callback : κ) : EventLoop κ where
  socketCallbacks := Finmap.insert fd callback ∅
  socketEvents := Finmap.insert fd 1 ∅
  mutexHeld := false

example (fd : Socket) (callback : κ) :
    (initial : EventLoop κ).addSocket fd 1 callback = .ok (single fd callback) := rfl

theorem shows_single (fd : Socket) (callback : κ) : (single fd callback).Shows [fd] := by
  refine ⟨List.nodup_singleton fd, fun other => ?_⟩
  rw [List.mem_singleton, single, Finmap.mem_insert]
  exact (or_iff_left Finmap.notMem_empty).symm

/-- A loop with two sockets. The first waits for bytes to read, and the second to write. -/
def pair (reader writer : κ) : EventLoop κ where
  socketCallbacks := Finmap.insert 7 writer (Finmap.insert 5 reader ∅)
  socketEvents := Finmap.insert 7 2 (Finmap.insert 5 1 ∅)
  mutexHeld := false

theorem shows_pair (reader writer : κ) : (pair reader writer).Shows [5, 7] := by
  refine ⟨by decide, fun fd => ?_⟩
  rw [List.mem_pair, pair, Finmap.mem_insert, Finmap.mem_insert, or_comm]
  exact or_congr_right (or_iff_left Finmap.notMem_empty).symm

/-- Both sockets are ready, and the callback of the second one removes its socket. -/
theorem tolerates_iff_pair :
    Tolerates (fun removes fd _ (world : Nat) =>
        (if removes then [.removeSocket fd] else [], world + 1)) (pair false true) [5, 7]
        ⟨{5}, {7}, ∅⟩ 0 ↔
      Passive (fun removes fd _ (world : Nat) =>
          (if removes then [.removeSocket fd] else [], world + 1))
        (pair false true).socketCallbacks 0 ([5, 7].flatMap (due ⟨{5}, {7}, ∅⟩)) :=
  tolerates_iff _ rfl (shows_pair false true) _ _

/-! ### The handlers of client connections -/

/-- A connection of the connection manager, with its socket and what `recv` is going to give. -/
structure LoopClient where
  fd : Socket
  connection : ClientConnection
  chunks : List Bytes

/-- `connections_`, in the order in which its map shows its entries. -/
abbrev Connections := List (UInt64 × LoopClient)

def removeClient (connections : Connections) (connId : UInt64) : Connections :=
  connections.filter fun entry => decide (entry.1 ≠ connId)

/-- The connection at which the loops over all identifiers break. -/
def findClient (connections : Connections) (clientFd : Socket) : Option (UInt64 × LoopClient) :=
  connections.find? fun entry => decide (entry.2.fd = clientFd)

def handleClientData (clientFd : Socket) (connections : Connections) :
    List (Registration κ) × Connections :=
  match findClient connections clientFd with
  | none => ([], connections)
  | some (connId, client) =>
    let (bytesRead, connection) := client.connection.read (client.chunks.headD [])
    if bytesRead ≤ 0 then ([.removeSocket clientFd], removeClient connections connId)
    else
      let later := { client with connection := connection, chunks := client.chunks.tail }
      ([], connections.map fun entry => if entry.1 = connId then (connId, later) else entry)

/-- It only logs. -/
def handleClientWrite (_clientFd : Socket) (connections : Connections) :
    List (Registration κ) × Connections := ([], connections)

def handleClientError (clientFd : Socket) (connections : Connections) :
    List (Registration κ) × Connections :=
  match findClient connections clientFd with
  | none => ([], connections)
  | some (connId, _) => ([.removeSocket clientFd], removeClient connections connId)

/-- The handler for an event of a client's socket. -/
def handleClient : Unit → Socket → EventType → Connections → List (Registration Unit) × Connections
  | _, clientFd, .read, connections => handleClientData clientFd connections
  | _, clientFd, .write, connections => handleClientWrite clientFd connections
  | _, clientFd, .errorEvent, connections => handleClientError clientFd connections

/-- A client on socket 5 has closed its connection. -/
theorem disconnect_blocks :
    ¬ ∀ (κ ω : Type) (behave : κ → Socket → EventType → ω → List (Registration κ) × ω)
        (loop : EventLoop κ) (order : List Socket) (fds : FdSets) (world : ω),
      loop.mutexHeld = false → loop.Shows order → Tolerates behave loop order fds world := by
  intro tolerates
  obtain ⟨last, ran, -⟩ := tolerates Unit Connections handleClient (single 5 ()) [5] ⟨{5}, ∅, ∅⟩
    [(1, ⟨5, .accept [], []⟩)] rfl (shows_single 5 ())
  rw [processSelectEvents_blocks handleClient rfl (shows_single 5 ())] at ran
  · cases ran
  · intro passive
    have quiet := passive () (Finmap.lookup_insert _)
    cases quiet.1

end EventLoop
end ScuffedRedis
