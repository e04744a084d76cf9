import ScuffedRedis.Server.Sockets

/-!
# The accept loop

`TcpServer` from its construction to its destruction. One thread is in `run_blocking`, and `stop`
may be called at any time, by a signal handler or by another thread, while a client is served or
while `accept` waits. The sockets of the server hold what is open at every point, which is the
listening socket until it is closed and the socket of at most one client.
-/
namespace ScuffedRedis
namespace Network

open Foundation

/-! ### The server -/

/-- Where the thread is that has the server. `accepting` comes with the listening socket as
`Socket::accept` has seen it. -/
inductive Position where
  | constructed
  | initialized
  | starting
  | started
  | testRunning
  | testStop
  | accept
  | accepting (listenSocket : Socket)
  | accepted
  | serving
  | served
  | cleaned
  | finishing
  | finished
  | destroyed

/-- The listening socket and the flags of the server, the local `client_socket` of the accept loop,
and the socket of the `ClientConnection`. -/
structure TcpServer where
  listenSocket : Socket
  clientSocket : Socket
  client : Socket
  running : Bool
  stopRequested : Bool
  position : Position
  kernel : Kernel

namespace TcpServer

def initial : TcpServer where
  listenSocket := .invalid
  clientSocket := .invalid
  client := .invalid
  running := false
  stopRequested := false
  position := .constructed
  kernel := .initial

/-- `granted` is what `::socket` returns, and `bound` whether `bind` and `listen` succeed. -/
def init (server : TcpServer) (granted : Option Nat) (bound : Bool) : TcpServer :=
  let (created, listenSocket, kernel) := server.listenSocket.createTcp server.kernel granted
  let position := if created && bound then .initialized else .finished
  { server with listenSocket := listenSocket, kernel := kernel, position := position }

def closeListenSocket (server : TcpServer) : TcpServer :=
  let (listenSocket, kernel) := server.listenSocket.close server.kernel
  { server with listenSocket := listenSocket, kernel := kernel }

def closeClientSocket (server : TcpServer) : TcpServer :=
  let (clientSocket, kernel) := server.clientSocket.close server.kernel
  { server with clientSocket := clientSocket, kernel := kernel }

/-- `ClientConnection::close`. Its flag keeps it from closing the socket again, which would do
nothing. -/
def closeClient (server : TcpServer) : TcpServer :=
  let (client, kernel) := server.client.close server.kernel
  { server with client := client, kernel := kernel }

def goto (server : TcpServer) (position : Position) : TcpServer :=
  { server with position := position }

/-- The next statement of `run_blocking`. `granted` is what `::accept` returns, if it is that. -/
def proceed (server : TcpServer) (granted : Option Nat) : TcpServer :=
  match server.position with
  | .constructed | .finished | .destroyed => server
  | .initialized => server.goto (if server.listenSocket.isValid then .starting else .finished)
  | .starting => { server with running := true, position := .started }
  | .started => { server with stopRequested := false, position := .testRunning }
  | .testRunning => server.goto (if server.running then .testStop else .finishing)
  | .testStop => server.goto (if server.stopRequested then .finishing else .accept)
  | .accept => server.goto (.accepting server.listenSocket)
  | .accepting listenSocket =>
    let (clientSocket, kernel) := listenSocket.accept server.kernel granted
    { server with clientSocket := clientSocket, kernel := kernel, position := .accepted }
  | .accepted =>
    if server.clientSocket.isValid then
      let (client, clientSocket) := server.clientSocket.moveConstruct
      { server with client := client, clientSocket := clientSocket, position := .serving }
    else server.closeClientSocket.goto .testRunning
  | .serving => server.closeClient.goto .served
  -- The destructors of the connection and then of `client_socket`.
  | .served => server.closeClient.goto .cleaned
  | .cleaned => server.closeClientSocket.goto .testRunning
  | .finishing => { server with running := false, position := .finished }

/-- What the server's thread and whoever calls `stop` do. The statements of `stop` are actions of
their own, in any order, so that any number of calls may be on their way. -/
inductive Action where
  | init (granted : Option Nat) (bound : Bool)
  | proceed (granted : Option Nat)
  /-- A read or a write of the connection fails, and closes it. -/
  | hangUp
  | requestStop
  | closeListenSocket
  | stopRunning
  | destroy

/-- The destructor calls `stop`, which joins the thread, and destroys the listening socket. -/
def step (server : TcpServer) : Action → TcpServer
  | .init granted bound =>
    match server.position with
    | .constructed => server.init granted bound
    | _ => server
  | .proceed granted => server.proceed granted
  | .hangUp =>
    match server.position with
    | .serving => server.closeClient
    | _ => server
  | .requestStop => { server with stopRequested := true }
  | .closeListenSocket => server.closeListenSocket
  | .stopRunning => { server with running := false }
  | .destroy =>
    match server.position with
    | .constructed | .initialized | .finished =>
      { server.closeListenSocket with
        stopRequested := true, running := false, position := .destroyed }
    | _ => server

def run (server : TcpServer) (actions : List Action) : TcpServer := actions.foldl step server

/-- What the kernel returns is not open. -/
def Granted (server : TcpServer) : Action → Prop
  | .init granted _ => (server.listenSocket.close server.kernel).2.Fresh granted
  | .proceed granted => server.kernel.Fresh granted
  | _ => True

/-- Every action is granted where it is taken. -/
def GrantedEach (server : TcpServer) : List Action → Prop
  | [] => True
  | action :: rest => server.Granted action ∧ (server.step action).GrantedEach rest

instance (kernel : Kernel) (granted : Option Nat) : Decidable (kernel.Fresh granted) :=
  inferInstanceAs (Decidable (∀ fd ∈ granted, fd ∉ kernel.opened))

instance decidableGranted (server : TcpServer) :
    (action : Action) → Decidable (server.Granted action)
  | .init granted _ =>
    inferInstanceAs (Decidable ((server.listenSocket.close server.kernel).2.Fresh granted))
  | .proceed granted => inferInstanceAs (Decidable (server.kernel.Fresh granted))
  | .hangUp | .requestStop | .closeListenSocket | .stopRunning | .destroy => .isTrue trivial

instance decidableGrantedEach :
    (actions : List Action) → (server : TcpServer) → Decidable (server.GrantedEach actions)
  | [], _ => .isTrue trivial
  | action :: rest, server =>
    have := decidableGrantedEach rest (server.step action)
    inferInstanceAs (Decidable (server.Granted action ∧ (server.step action).GrantedEach rest))

/-! ### Ownership -/

/-- The three sockets. -/
def fds (server : TcpServer) : List (Option Nat) :=
  [server.listenSocket.fd, server.clientSocket.fd, server.client.fd]

/-- The sockets hold what is open, and a client's socket only in its turn. -/
structure Safe (server : TcpServer) : Prop where
  owned : Owned server.fds server.kernel.opened
  noBadClose : server.kernel.badCloses = 0
  clientSocket : server.clientSocket.fd ≠ none → server.position = .accepted
  client : server.client.fd ≠ none → server.position = .serving
  destroyed : server.position = .destroyed → server.listenSocket.fd = none

section Close

variable {server : TcpServer} (safe : server.Safe)

include safe

theorem Safe.closeListenSocket :
    server.closeListenSocket.Safe ∧ server.closeListenSocket.listenSocket = .invalid := by
  obtain ⟨closed, owned, noBadClose⟩ :=
    @Socket.closed_of_owned _ 0 _ _ safe.owned rfl safe.noBadClose
  have invalid : server.closeListenSocket.listenSocket = .invalid := closed
  refine ⟨⟨?_, noBadClose, safe.clientSocket, safe.client, fun _ => by rw [invalid]; rfl⟩, invalid⟩
  rw [fds, invalid]
  exact owned

theorem Safe.closeClientSocket :
    server.closeClientSocket.Safe ∧ server.closeClientSocket.clientSocket = .invalid := by
  obtain ⟨closed, owned, noBadClose⟩ :=
    @Socket.closed_of_owned _ 1 _ _ safe.owned rfl safe.noBadClose
  have invalid : server.closeClientSocket.clientSocket = .invalid := closed
  refine ⟨⟨?_, noBadClose, fun held => ?_, safe.client, safe.destroyed⟩, invalid⟩
  · rw [fds, invalid]
    exact owned
  · rw [invalid] at held
    exact absurd rfl held

theorem Safe.closeClient :
    server.closeClient.Safe ∧ server.closeClient.client = .invalid := by
  obtain ⟨closed, owned, noBadClose⟩ :=
    @Socket.closed_of_owned _ 2 _ _ safe.owned rfl safe.noBadClose
  have invalid : server.closeClient.client = .invalid := closed
  refine ⟨⟨?_, noBadClose, safe.clientSocket, fun held => ?_, safe.destroyed⟩, invalid⟩
  · rw [fds, invalid]
    exact owned
  · rw [invalid] at held
    exact absurd rfl held

/-- A position in which no client is held may follow when none is. -/
theorem Safe.goto {position : Position} (clientSocket : server.clientSocket.fd = none)
    (client : server.client.fd = none) (alive : position ≠ .destroyed) :
    (server.goto position).Safe where
  owned := safe.owned
  noBadClose := safe.noBadClose
  clientSocket held := absurd clientSocket held
  client held := absurd client held
  destroyed gone := absurd gone alive

theorem Safe.clientSocket_none (other : server.position ≠ .accepted) :
    server.clientSocket.fd = none := by
  by_contra held
  exact other (safe.clientSocket held)

theorem Safe.client_none (other : server.position ≠ .serving) : server.client.fd = none := by
  by_contra held
  exact other (safe.client held)

/-- Outside its turn no client is held. -/
theorem Safe.between {position : Position} (here : server.position = position)
    (notAccepted : position ≠ .accepted) (notServing : position ≠ .serving) :
    server.clientSocket.fd = none ∧ server.client.fd = none :=
  ⟨safe.clientSocket_none (here ▸ notAccepted), safe.client_none (here ▸ notServing)⟩

theorem Safe.init {granted : Option Nat} (bound : Bool) (here : server.position = .constructed)
    (fresh : (server.listenSocket.close server.kernel).2.Fresh granted) :
    (server.init granted bound).Safe := by
  obtain ⟨-, owned, noBadClose⟩ :=
    @Socket.closed_of_owned _ 0 _ _ safe.owned rfl safe.noBadClose
  obtain ⟨clientSocket, client⟩ := safe.between here nofun nofun
  refine ⟨owned.fill (Nat.zero_lt_succ _) rfl fresh, noBadClose,
    fun held => absurd clientSocket held, fun held => absurd client held, fun gone => ?_⟩
  simp only [TcpServer.init] at gone
  split at gone <;> cases gone

/-- A client's socket is taken from `::accept`. -/
theorem Safe.take {granted : Option Nat} (seen : Socket)
    (clientSocket : server.clientSocket.fd = none) (client : server.client.fd = none)
    (fresh : server.kernel.Fresh granted) :
    Safe { server with
      clientSocket := (seen.accept server.kernel granted).1
      kernel := (seen.accept server.kernel granted).2
      position := .accepted } := by
  rw [Socket.accept]
  split
  · exact ⟨safe.owned.fill (Nat.succ_lt_succ (Nat.zero_lt_succ _)) clientSocket fresh,
      safe.noBadClose, fun _ => rfl, fun held => absurd client held, fun gone => by cases gone⟩
  · refine ⟨?_, safe.noBadClose, fun _ => rfl, fun held => absurd client held,
      fun gone => by cases gone⟩
    have owned := safe.owned
    rw [fds, clientSocket] at owned
    exact owned

/-- And moved into a connection. -/
theorem Safe.connect (client : server.client.fd = none) :
    Safe { server with
      client := server.clientSocket.moveConstruct.1
      clientSocket := server.clientSocket.moveConstruct.2
      position := .serving } where
  owned := safe.owned.moveOver 1 (Nat.lt_succ_self 2) client (by decide)
  noBadClose := safe.noBadClose
  clientSocket held := absurd rfl held
  client _ := rfl
  destroyed := nofun

/-- One statement of `run_blocking`, case by case. -/
theorem Safe.proceed {granted : Option Nat} (fresh : server.kernel.Fresh granted) :
    (server.proceed granted).Safe := by
  rw [TcpServer.proceed]
  cases here : server.position with
  | constructed => exact safe
  | finished => exact safe
  | destroyed => exact safe
  | initialized =>
    obtain ⟨clientSocket, client⟩ := safe.between here nofun nofun
    refine safe.goto clientSocket client ?_
    split <;> exact nofun
  | starting =>
    obtain ⟨clientSocket, client⟩ := safe.between here nofun nofun
    exact { safe.goto clientSocket client (nofun : Position.started ≠ .destroyed) with }
  | started =>
    obtain ⟨clientSocket, client⟩ := safe.between here nofun nofun
    exact { safe.goto clientSocket client (nofun : Position.testRunning ≠ .destroyed) with }
  | testRunning =>
    obtain ⟨clientSocket, client⟩ := safe.between here nofun nofun
    refine safe.goto clientSocket client ?_
    split <;> exact nofun
  | testStop =>
    obtain ⟨clientSocket, client⟩ := safe.between here nofun nofun
    refine safe.goto clientSocket client ?_
    split <;> exact nofun
  | accept =>
    obtain ⟨clientSocket, client⟩ := safe.between here nofun nofun
    exact safe.goto clientSocket client nofun
  | accepting seen =>
    obtain ⟨clientSocket, client⟩ := safe.between here nofun nofun
    exact safe.take seen clientSocket client fresh
  | accepted =>
    -- Only here `client_socket` is held, and it is moved on or was never valid.
    have client := safe.client_none (by rw [here]; exact nofun)
    dsimp only
    split
    · exact safe.connect client
    · obtain ⟨closed, invalid⟩ := safe.closeClientSocket
      exact closed.goto (by rw [invalid]; rfl) client nofun
  | serving =>
    have clientSocket := safe.clientSocket_none (by rw [here]; exact nofun)
    obtain ⟨closed, invalid⟩ := safe.closeClient
    exact closed.goto clientSocket (by rw [invalid]; rfl) nofun
  | served =>
    -- The connection was closed before, and its destructor finds nothing to close.
    obtain ⟨clientSocket, -⟩ := safe.between here nofun nofun
    obtain ⟨closed, invalid⟩ := safe.closeClient
    exact closed.goto clientSocket (by rw [invalid]; rfl) nofun
  | cleaned =>
    obtain ⟨-, client⟩ := safe.between here nofun nofun
    obtain ⟨closed, invalid⟩ := safe.closeClientSocket
    exact closed.goto (by rw [invalid]; rfl) client nofun
  | finishing =>
    obtain ⟨clientSocket, client⟩ := safe.between here nofun nofun
    exact { safe.goto clientSocket client (nofun : Position.finished ≠ .destroyed) with }

theorem Safe.step {action : Action} (granted : server.Granted action) :
    (server.step action).Safe := by
  cases action with
  | init granted' bound =>
    rw [TcpServer.step]
    split
    next here => exact safe.init bound here granted
    · exact safe
  | proceed => exact safe.proceed granted
  | hangUp =>
    rw [TcpServer.step]
    split
    · exact safe.closeClient.1
    · exact safe
  | requestStop => exact { safe with }
  | closeListenSocket => exact safe.closeListenSocket.1
  | stopRunning => exact { safe with }
  | destroy =>
    obtain ⟨closed, invalid⟩ := safe.closeListenSocket
    -- No client is held in the three positions where the server may be destroyed.
    have gone (free : server.clientSocket.fd = none ∧ server.client.fd = none) :
        Safe { server.closeListenSocket with
          stopRequested := true, running := false, position := .destroyed } :=
      ⟨closed.owned, closed.noBadClose, fun held => absurd free.1 held,
        fun held => absurd free.2 held, fun _ => congrArg Socket.fd invalid⟩
    rw [TcpServer.step]
    split
    next here => exact gone (safe.between here nofun nofun)
    next here => exact gone (safe.between here nofun nofun)
    next here => exact gone (safe.between here nofun nofun)
    · exact safe

end Close

end TcpServer

namespace Position

/-- The loop has been entered, and its flags are no longer set. -/
def inLoop : Position → Bool
  | constructed | initialized | starting | started => false
  | _ => true

/-- The statements that are left when `stop` has been requested. -/
def remaining : Position → Nat
  | accept => 9
  | accepting _ => 8
  | accepted => 7
  | serving => 6
  | served => 5
  | cleaned => 4
  | testRunning => 3
  | testStop => 2
  | finishing => 1
  | _ => 0

end Position

namespace TcpServer

def Action.isProceed : Action → Bool
  | .proceed _ => true
  | _ => false

/-- `stop` has been requested, and the thread comes to the end within so many statements. -/
structure Ending (server : TcpServer) (count : Nat) : Prop where
  requested : server.stopRequested = true
  inLoop : server.position.inLoop = true
  remaining : server.position.remaining ≤ count

/-- Every statement of the loop leads on towards its end. -/
theorem Ending.proceed {server : TcpServer} {count : Nat} (ending : server.Ending count)
    (granted : Option Nat) : (server.proceed granted).Ending (count - 1) := by
  obtain ⟨requested, inLoop, remaining⟩ := ending
  rw [TcpServer.proceed]
  cases here : server.position with
  | constructed | initialized | starting | started =>
    rw [here] at inLoop
    cases inLoop
  | finished | destroyed =>
    refine ⟨requested, inLoop, ?_⟩
    change server.position.remaining ≤ _
    rw [here]
    exact Nat.zero_le _
  | testRunning =>
    rw [here] at remaining
    refine ⟨requested, ?_, ?_⟩
    · dsimp only [goto]
      split <;> rfl
    · have next : (if server.running then Position.testStop else .finishing).remaining ≤ 2 := by
        split <;> decide
      exact next.trans (Nat.le_sub_one_of_lt remaining)
  | testStop =>
    -- The loop condition sees the request.
    rw [here] at remaining
    simp only [goto, requested, if_true]
    exact ⟨rfl, rfl, Nat.le_sub_one_of_lt remaining⟩
  | accepted =>
    rw [here] at remaining
    dsimp only
    split
    · exact ⟨requested, rfl, Nat.le_sub_one_of_lt remaining⟩
    · exact ⟨requested, rfl, (by decide : 3 ≤ 6).trans (Nat.le_sub_one_of_lt remaining)⟩
  | accept | accepting | serving | served | cleaned | finishing =>
    -- A client that is being served is served to its end first.
    rw [here] at remaining
    exact ⟨requested, rfl, Nat.le_sub_one_of_lt remaining⟩

theorem Ending.step {server : TcpServer} {count : Nat} (ending : server.Ending count)
    (action : Action) :
    (server.step action).Ending (if action.isProceed then count - 1 else count) := by
  cases action with
  | init granted bound =>
    obtain ⟨requested, inLoop, remaining⟩ := ending
    rw [TcpServer.step]
    split
    next constructed =>
      rw [constructed] at inLoop
      cases inLoop
    · exact ⟨requested, inLoop, remaining⟩
  | proceed granted => exact ending.proceed granted
  | hangUp =>
    rw [TcpServer.step]
    split <;> exact { ending with }
  | requestStop => exact ⟨rfl, ending.inLoop, ending.remaining⟩
  | closeListenSocket | stopRunning => exact { ending with }
  | destroy =>
    rw [TcpServer.step]
    split
    · exact ⟨rfl, rfl, Nat.zero_le _⟩
    · exact ⟨rfl, rfl, Nat.zero_le _⟩
    · exact ⟨rfl, rfl, Nat.zero_le _⟩
    · exact ending

theorem Ending.run {server : TcpServer} {count : Nat} (ending : server.Ending count)
    (actions : List Action) :
    (server.run actions).Ending (count - actions.countP Action.isProceed) := by
  induction actions generalizing server count with
  | nil => exact ending
  | cons action rest ih =>
    have next := ih (ending.step action)
    rw [List.countP_cons]
    split at next
    next proceeds =>
      rw [if_pos proceeds, Nat.add_comm, ← Nat.sub_sub]
      exact next
    next other =>
      rw [if_neg other]
      exact next

/-- When nothing is left of it, the thread has left `run_blocking`. -/
theorem Ending.finished {server : TcpServer} (ending : server.Ending 0) :
    server.position = .finished ∨ server.position = .destroyed := by
  obtain ⟨-, inLoop, remaining⟩ := ending
  cases here : server.position with
  | finished => exact .inl rfl
  | destroyed => exact .inr rfl
  | constructed | initialized | starting | started =>
    rw [here] at inLoop
    cases inLoop
  | testRunning | testStop | accept | accepting | accepted | serving | served | cleaned
  | finishing =>
    rw [here] at remaining
    cases remaining

/-- A client that hangs up, and one that is served when `stop` is called. Their sockets get the same
descriptor. -/
def stopped : List Action :=
  [.init (some 3) true, .proceed none, .proceed none, .proceed none, .proceed none, .proceed none,
    .proceed none, .proceed (some 4), .proceed none, .hangUp, .proceed none, .proceed none,
    .proceed none, .proceed none, .proceed none, .proceed none, .proceed (some 4), .proceed none,
    .requestStop, .closeListenSocket, .stopRunning]

end TcpServer
end Network
end ScuffedRedis
