import ScuffedRedis.Foundation.Interleaving
import ScuffedRedis.Server.SimpleBuffer

/-!
# The simple server serves all its connections in one order

The poll loop takes requests from many connections, a read at a time, and writes answers when it
can. Whatever the order of the events, there is a log of all requests such that the map is what
they make of the empty map one after another, and each connection gets the answers to its own.
-/
namespace ScuffedRedis
namespace SimpleServer

open Protocol Foundation

/-! ### What can be seen on the connections -/

/-- The bytes that were read from a connection and written to it. -/
structure Peer where
  received : Bytes
  written : Bytes

/-- The server with a record of all connections it has accepted, which have the numbers below
`count`. -/
structure Watched where
  server : Server
  count : Nat
  number : Nat → Nat
  peers : Nat → Peer

def Watched.start : Watched where
  server := SimpleServer.start
  count := 0
  number := fun _ => 0
  peers := fun _ => ⟨[], []⟩

/-- The bytes that the branch for `POLLIN` reads. -/
def readBytes (conn : Conn) (pollin : Option ReadResult) : Bytes :=
  match pollin with
  | some result => if conn.wantRead then result.received else []
  | none => []

/-- The bytes that the branch for `POLLOUT` writes. -/
def writtenBytes (conn : Conn) (pollout : Option WriteResult) : Bytes :=
  match pollout with
  | some (.wrote count) => if conn.wantWrite then conn.outgoing.take count else []
  | _ => []

/-- `step`, with the record. -/
def watch (w : Watched) : Event → Except Abort Watched
  | .accept fd =>
    match w.server.fd2conn fd with
    | some _ => .ok w
    | none => .ok {
        server :=
          { w.server with fd2conn := Function.update w.server.fd2conn fd (some accepted) }
        count := w.count + 1
        number := Function.update w.number fd w.count
        peers := w.peers }
  | .ready fd pollin pollout =>
    match w.server.fd2conn fd with
    | none => .ok w
    | some conn => do
      let writable := if conn.wantWrite then pollout else none
      let s ← serveRead { gMap := w.server.gMap, conn := conn } pollin
      let last ← serveWrite s writable
      let peer := w.peers (w.number fd)
      return {
        server := {
          gMap := last.gMap
          fd2conn := Function.update w.server.fd2conn fd last.conn.kept }
        count := w.count
        number := w.number
        peers := Function.update w.peers (w.number fd)
          ⟨peer.received ++ readBytes conn pollin, peer.written ++ writtenBytes s.conn writable⟩ }

theorem watch_server (w : Watched) (event : Event) :
    (watch w event).map Watched.server = step w.server event := by
  cases event with
  | accept fd =>
    rw [watch, step]
    cases w.server.fd2conn fd <;> rfl
  | ready fd pollin pollout =>
    rw [watch, step]
    cases w.server.fd2conn fd with
    | none => rfl
    | some conn =>
      simp only [serveConn]
      cases serveRead { gMap := w.server.gMap, conn := conn } pollin with
      | error abort => rfl
      | ok s =>
        change Except.map _ (serveWrite s _ >>= _) = serveWrite s _ >>= _
        cases serveWrite s (if conn.wantWrite then pollout else none) <;> rfl

/-! ### Requests in one order -/

/-- A request alone: its answer, and the map after it. -/
def answer (gMap : Map) (body : Bytes) : Bytes × Map :=
  ((doRequest gMap body []).2, (doRequest gMap body []).1)

/-- Requests in the order of their execution, each with the number of its connection. -/
abbrev Log := List (Nat × Bytes)

/-- The requests of a connection. -/
def Log.requestsOf (log : Log) (id : Nat) : List Bytes := answersTo id log

/-- Their answers, when all requests are executed one after another from the start. -/
def Log.answersOf (log : Log) (id : Nat) : List Bytes :=
  answersTo id (runInputs (owned answer) start.gMap log).1

def Log.gMap (log : Log) : Map := (runInputs (owned answer) start.gMap log).2

/-- The requests of a connection are those that it has sent in full, and it has got a front of
their answers. -/
structure Served (peer : Peer) (requests answers : List Bytes) : Prop where
  split : ∃ rest closing, Split peer.received requests rest closing
  written : ∃ missing, peer.written ++ missing = answers.flatten

/-- While the connection is open, what it has not got yet is ready to be sent. -/
structure Serving (peer : Peer) (requests answers : List Bytes) (conn : Conn) : Prop where
  split : Split peer.received requests conn.incoming false
  pending : peer.written ++ conn.outgoing = answers.flatten
  isOpen : conn.wantClose = false

/-- The log explains all that was seen. -/
structure Serialized (w : Watched) (log : Log) : Prop where
  gMap : w.server.gMap = log.gMap
  numbered : ∀ x ∈ log, x.1 < w.count
  served : ∀ id < w.count, Served (w.peers id) (log.requestsOf id) (log.answersOf id)
  serving : ∀ fd conn, w.server.fd2conn fd = some conn → w.number fd < w.count ∧
    Serving (w.peers (w.number fd)) (log.requestsOf (w.number fd)) (log.answersOf (w.number fd))
        conn
  apart : ∀ fd fd' conn conn', w.server.fd2conn fd = some conn →
    w.server.fd2conn fd' = some conn' → w.number fd = w.number fd' → fd = fd'
  unused : ∀ id, w.count ≤ id → w.peers id = ⟨[], []⟩

/-! ### Requests one by one -/

theorem respond_append (out resp : Bytes) : respond out resp = out ++ respond [] resp := by
  simp only [respond, bufAppend, List.nil_append, List.append_assoc]

/-- A request does not look at what is still to be sent. -/
theorem doRequest_append (gMap : Map) (body out : Bytes) :
    doRequest gMap body out = ((answer gMap body).2, out ++ (answer gMap body).1) := by
  unfold answer doRequest
  split
  next => rw [respond_append]
  split
  next =>
    cases find body 0 with
    | some => simp only [respond_append out]
    | none => simp
  split
  next =>
    cases find body 0 with
    | none => simp
    | some space1 =>
      dsimp only
      cases find body (space1 + 1) with
      | some => simp only [respond_append out]
      | none => simp
  next => rw [respond_append]

theorem requests_eq (gMap : Map) (out : Bytes) (bodies : List Bytes) :
    requests gMap out bodies =
      ((runInputs answer gMap bodies).2, out ++ (runInputs answer gMap bodies).1.flatten) := by
  induction bodies generalizing gMap out with
  | nil => simp [requests]
  | cons body bodies ih =>
    have first : requests gMap out (body :: bodies) =
        requests (doRequest gMap body out).1 (doRequest gMap body out).2 bodies := rfl
    rw [first, doRequest_append, ih, runInputs_cons, List.flatten_cons, List.append_assoc]

/-- The requests of one connection that a read completes. -/
def batch (id : Nat) (bodies : List Bytes) : Log := bodies.map fun body => (id, body)

section Batch

variable (log : Log) (id : Nat) (bodies : List Bytes)

theorem gMap_batch : Log.gMap (log ++ batch id bodies) = (runInputs answer log.gMap bodies).2 := by
  rw [Log.gMap, runInputs_append]
  exact (runInputs_alone answer id log.gMap bodies).1

theorem requestsOf_batch :
    Log.requestsOf (log ++ batch id bodies) id = log.requestsOf id ++ bodies := by
  rw [Log.requestsOf, answersTo_append]
  have own : answersTo id (batch id bodies) = bodies := by
    rw [answersTo, batch, List.filter_eq_self.mpr (by simp), List.map_map]
    exact List.map_id bodies
  rw [own, Log.requestsOf]

theorem answersOf_batch : Log.answersOf (log ++ batch id bodies) id =
    log.answersOf id ++ (runInputs answer log.gMap bodies).1 := by
  rw [Log.answersOf, runInputs_append, answersTo_append]
  exact congrArg _ (runInputs_alone answer id log.gMap bodies).2

variable {log id bodies} {other : Nat}

theorem requestsOf_batch_other (different : other ≠ id) :
    Log.requestsOf (log ++ batch id bodies) other = log.requestsOf other := by
  have nothing : answersTo other (batch id bodies) = [] := by
    rw [answersTo, batch, List.filter_eq_nil_iff.mpr (by simp [Ne.symm different]), List.map_nil]
  rw [Log.requestsOf, answersTo_append, nothing, List.append_nil, Log.requestsOf]

theorem answersOf_batch_other (different : other ≠ id) :
    Log.answersOf (log ++ batch id bodies) other = log.answersOf other := by
  have absent : other ∉ (batch id bodies).map Prod.fst := by simp [batch, different]
  rw [Log.answersOf, runInputs_append, answersTo_append, answersTo_absent absent, List.append_nil,
    Log.answersOf]

end Batch

/-! ### One round of a connection -/

/-- The read takes the requests that it completes. A connection that stays open waits for the
rest of the next. -/
theorem serveRead_spec {s next : Session} {pollin : Option ReadResult}
    (waiting : Waiting s.conn.incoming) (returned : serveRead s pollin = .ok next) :
    ∃ bodies rest closing,
      Split (s.conn.incoming ++ readBytes s.conn pollin) bodies rest closing ∧
      next.gMap = (runInputs answer s.gMap bodies).2 ∧
      next.conn.outgoing = s.conn.outgoing ++ (runInputs answer s.gMap bodies).1.flatten ∧
      (next.conn.wantClose = false → closing = false ∧ next.conn.incoming = rest) := by
  -- Nothing was read, and nothing but the flag and the buffer may be different.
  have idle (nothing : readBytes s.conn pollin = []) (gMap : next.gMap = s.gMap)
      (outgoing : next.conn.outgoing = s.conn.outgoing)
      (incoming : next.conn.wantClose = false → next.conn.incoming = s.conn.incoming) :
      ∃ bodies rest closing,
        Split (s.conn.incoming ++ readBytes s.conn pollin) bodies rest closing ∧
        next.gMap = (runInputs answer s.gMap bodies).2 ∧
        next.conn.outgoing = s.conn.outgoing ++ (runInputs answer s.gMap bodies).1.flatten ∧
        (next.conn.wantClose = false → closing = false ∧ next.conn.incoming = rest) := by
    rw [nothing, List.append_nil]
    refine ⟨[], s.conn.incoming, false, waiting.split, gMap, ?_, fun isOpen =>
      ⟨rfl, incoming isOpen⟩⟩
    rw [outgoing, runInputs_nil, List.flatten_nil, List.append_nil]
  cases pollin with
  | none =>
    cases returned
    exact idle rfl rfl rfl fun _ => rfl
  | some result =>
    by_cases wanted : s.conn.wantRead = true
    · rw [serveRead] at returned
      rw [if_pos wanted] at returned
      have bytes : readBytes s.conn (some result) = result.received := if_pos wanted
      by_cases data : ∃ chunk, result = .bytes chunk ∧ chunk ≠ []
      · obtain ⟨chunk, rfl, nonempty⟩ := data
        rcases handleRead_ok returned with ⟨ends, -⟩ | ⟨other, -⟩ |
          ⟨chunk', bodies, rest, closing, same, -, -, split, rfl⟩
        · exact absurd ends nonempty
        · cases other
        · cases same
          refine ⟨bodies, rest, closing, by rw [bytes]; exact split, ?_, ?_, ?_⟩
          · rw [Session.after, requests_eq]
          · rw [Session.after, requests_eq]
          · intro isOpen
            exact ⟨(Bool.or_eq_false_iff.mp isOpen).2, rfl⟩
      · -- The stream has ended, or there is nothing to read yet.
        have nothing : readBytes s.conn (some result) = [] := by
          rw [bytes]
          cases result with
          | bytes chunk =>
            by_contra nonempty
            exact data ⟨chunk, rfl, nonempty⟩
          | again => rfl
          | failed => rfl
        by_cases room : s.conn.incoming.length < kMaxMsg
        · rw [handleRead, if_pos room] at returned
          rcases result with (_ | ⟨byte, chunk⟩) | _ | _
          · cases returned
            exact idle nothing rfl rfl fun closed => by cases closed
          · exact absurd ⟨_, rfl, List.cons_ne_nil byte chunk⟩ data
          · cases returned
            exact idle nothing rfl rfl fun _ => rfl
          · cases returned
            exact idle nothing rfl rfl fun closed => by cases closed
        · rw [handleRead, if_neg room] at returned
          cases returned
    · rw [serveRead] at returned
      rw [if_neg wanted] at returned
      cases returned
      exact idle (if_neg wanted) rfl rfl fun _ => rfl

/-- The write takes bytes from the front of the output. -/
theorem serveWrite_spec {s next : Session} {pollout : Option WriteResult}
    (returned : serveWrite s pollout = .ok next) :
    next.gMap = s.gMap ∧ next.conn.incoming = s.conn.incoming ∧
      writtenBytes s.conn pollout ++ next.conn.outgoing = s.conn.outgoing ∧
      (next.conn.wantClose = false → s.conn.wantClose = false) := by
  cases pollout with
  | none =>
    cases returned
    exact ⟨rfl, rfl, rfl, id⟩
  | some result =>
    by_cases wanted : s.conn.wantWrite = true
    · rw [serveWrite] at returned
      rw [if_pos wanted] at returned
      unfold handleWrite at returned
      split at returned
      · cases result with
        | again =>
          cases returned
          exact ⟨rfl, rfl, rfl, id⟩
        | failed =>
          cases returned
          exact ⟨rfl, rfl, rfl, fun closed => by cases closed⟩
        | wrote count =>
          have taken : writtenBytes s.conn (some (.wrote count)) = s.conn.outgoing.take count :=
            if_pos wanted
          have whole := List.take_append_drop count s.conn.outgoing
          rw [taken]
          by_cases empty : (bufConsume s.conn.outgoing count).length = 0
          · simp only [if_pos empty] at returned
            cases returned
            exact ⟨rfl, rfl, whole, id⟩
          · simp only [if_neg empty] at returned
            cases returned
            exact ⟨rfl, rfl, whole, id⟩
      · cases returned
    · rw [serveWrite] at returned
      rw [if_neg wanted] at returned
      cases returned
      have nothing : writtenBytes s.conn (some result) = [] := by
        cases result with
        | wrote count => exact if_neg wanted
        | again => rfl
        | failed => rfl
      rw [nothing]
      exact ⟨rfl, rfl, rfl, id⟩

/-- A connection after a round, in which some requests were completed. -/
theorem Serving.round {peer : Peer} {requests answers : List Bytes} {conn : Conn} {gMap : Map}
    {s last : Session} {pollin : Option ReadResult} {writable : Option WriteResult}
    (serving : Serving peer requests answers conn)
    (read : serveRead { gMap := gMap, conn := conn } pollin = .ok s)
    (wrote : serveWrite s writable = .ok last) :
    ∃ bodies peer', peer' = Peer.mk (peer.received ++ readBytes conn pollin)
        (peer.written ++ writtenBytes s.conn writable) ∧
      last.gMap = (runInputs answer gMap bodies).2 ∧
      Served peer' (requests ++ bodies) (answers ++ (runInputs answer gMap bodies).1) ∧
      (last.conn.wantClose = false →
        Serving peer' (requests ++ bodies) (answers ++ (runInputs answer gMap bodies).1)
          last.conn) := by
  obtain ⟨bodies, rest, closing, completed, gMap', outgoing, stays⟩ :=
    serveRead_spec (s := ⟨gMap, conn⟩) serving.split.stopped read
  obtain ⟨same, incoming, written, wasOpen⟩ := serveWrite_spec wrote
  have received := serving.split.extend completed
  -- What was ready to be sent and what came to it is sent or still ready.
  have pending : peer.written ++ writtenBytes s.conn writable ++ last.conn.outgoing =
      (answers ++ (runInputs answer gMap bodies).1).flatten := by
    rw [List.append_assoc, written, outgoing, ← List.append_assoc, serving.pending,
      List.flatten_append]
  refine ⟨bodies, _, rfl, same.trans gMap', ⟨⟨rest, closing, received⟩, _, pending⟩, ?_⟩
  intro isOpen
  obtain ⟨rfl, buffered⟩ := stays (wasOpen isOpen)
  refine ⟨?_, pending, isOpen⟩
  rw [incoming, buffered]
  exact received

/-! ### Steps and runs -/

theorem serialized_start : Serialized .start [] where
  gMap := rfl
  numbered := fun x listed => absurd listed List.not_mem_nil
  served := fun id below => absurd below (Nat.not_lt_zero id)
  serving := fun fd conn found => by cases found
  apart := fun fd fd' conn conn' found => by cases found
  unused := fun id _ => rfl

section Step

variable {w next : Watched} {log : Log} {fd : Nat}

/-- A connection that is not numbered yet has no requests. -/
theorem Serialized.absent (serialized : Serialized w log) {id : Nat} (above : w.count ≤ id) :
    log.requestsOf id = [] ∧ log.answersOf id = [] := by
  have absent : id ∉ log.map Prod.fst := by
    intro listed
    obtain ⟨x, member, rfl⟩ := List.mem_map.mp listed
    have := serialized.numbered x member
    omega
  refine ⟨?_, answersTo_absent absent start.gMap⟩
  have others : log.filter (·.1 = id) = [] := by
    rw [List.filter_eq_nil_iff]
    intro x member
    rw [decide_eq_true_eq]
    exact fun same => absent (List.mem_map.mpr ⟨x, member, same⟩)
  rw [Log.requestsOf, answersTo, others, List.map_nil]

/-- A new connection has the next number. -/
theorem Serialized.accept (serialized : Serialized w log)
    (accepted : watch w (.accept fd) = .ok next) : Serialized next log := by
  rw [watch] at accepted
  split at accepted
  next => exact (Except.ok.inj accepted) ▸ serialized
  next unused =>
    cases accepted
    obtain ⟨noRequests, noAnswers⟩ := serialized.absent (le_refl w.count)
    have fresh := serialized.unused w.count (le_refl _)
    have below {fd' : Nat} {conn : Conn} (found : w.server.fd2conn fd' = some conn) :
        w.number fd' < w.count := (serialized.serving fd' conn found).1
    constructor
    case gMap => exact serialized.gMap
    case numbered =>
      intro x listed
      exact Nat.lt_succ_of_lt (serialized.numbered x listed)
    case served =>
      intro id numbered
      rcases Nat.lt_succ_iff_lt_or_eq.mp numbered with earlier | rfl
      · exact serialized.served id earlier
      · rw [noRequests, noAnswers, fresh]
        exact ⟨⟨[], false, waiting_nil.split⟩, [], rfl⟩
    case serving =>
      intro fd' conn found
      dsimp only at found ⊢
      by_cases same : fd' = fd
      · subst same
        rw [Function.update_self, Option.some.injEq] at found
        subst found
        rw [Function.update_self, noRequests, noAnswers, fresh]
        exact ⟨Nat.lt_succ_self _, waiting_nil.split, rfl, rfl⟩
      · rw [Function.update_of_ne same] at found ⊢
        obtain ⟨numbered, good⟩ := serialized.serving fd' conn found
        exact ⟨Nat.lt_succ_of_lt numbered, good⟩
    case apart =>
      intro fd' fd'' conn conn' found found' same
      dsimp only at found found' same
      -- Only the new connection has the new number.
      by_cases first : fd' = fd <;> by_cases second : fd'' = fd
      · rw [first, second]
      · rw [first, Function.update_self, Function.update_of_ne second] at same
        rw [Function.update_of_ne second] at found'
        have := below found'
        omega
      · rw [second, Function.update_self, Function.update_of_ne first] at same
        rw [Function.update_of_ne first] at found
        have := below found
        omega
      · rw [Function.update_of_ne first] at found same
        rw [Function.update_of_ne second] at found' same
        exact serialized.apart fd' fd'' conn conn' found found' same
    case unused => exact fun id above => serialized.unused id (Nat.le_of_succ_le above)

/-- A round of one connection leaves the others alone. -/
theorem Serialized.extend (serialized : Serialized w log) {conn : Conn} {peer : Peer}
    {last : Session} {bodies : List Bytes} (found : w.server.fd2conn fd = some conn)
    (gMap : last.gMap = (runInputs answer w.server.gMap bodies).2)
    (served : Served peer (log.requestsOf (w.number fd) ++ bodies)
      (log.answersOf (w.number fd) ++ (runInputs answer w.server.gMap bodies).1))
    (stays : last.conn.wantClose = false →
      Serving peer (log.requestsOf (w.number fd) ++ bodies)
        (log.answersOf (w.number fd) ++ (runInputs answer w.server.gMap bodies).1) last.conn) :
    Serialized
      { server := {
          gMap := last.gMap
          fd2conn := Function.update w.server.fd2conn fd last.conn.kept }
        count := w.count
        number := w.number
        peers := Function.update w.peers (w.number fd) peer }
      (log ++ batch (w.number fd) bodies) := by
  have below := (serialized.serving fd conn found).1
  rw [serialized.gMap] at gMap served stays
  rw [← requestsOf_batch, ← answersOf_batch] at served stays
  -- A descriptor that is in use afterwards was in use before.
  have wasOpen {fd' : Nat} {conn' : Conn}
      (found' : Function.update w.server.fd2conn fd last.conn.kept fd' = some conn') :
      ∃ conn, w.server.fd2conn fd' = some conn := by
    by_cases same : fd' = fd
    · exact ⟨conn, same ▸ found⟩
    · rw [Function.update_of_ne same] at found'
      exact ⟨conn', found'⟩
  constructor
  case gMap => rw [gMap_batch, gMap]
  case numbered =>
    intro x listed
    rcases List.mem_append.mp listed with earlier | new
    · exact serialized.numbered x earlier
    · obtain ⟨body, -, rfl⟩ := List.mem_map.mp new
      exact below
  case served =>
    intro id numbered
    dsimp only at numbered ⊢
    by_cases own : id = w.number fd
    · subst own
      rwa [Function.update_self]
    · rw [Function.update_of_ne own, requestsOf_batch_other own, answersOf_batch_other own]
      exact serialized.served id numbered
  case serving =>
    intro fd' conn' found'
    dsimp only at found' ⊢
    by_cases same : fd' = fd
    · subst same
      rw [Function.update_self] at found' ⊢
      by_cases closing : last.conn.wantClose = false
      · rw [Conn.kept_open closing, Option.some.injEq] at found'
        subst found'
        exact ⟨below, stays closing⟩
      · rw [Conn.kept_closing (by simpa using closing)] at found'
        cases found'
    · rw [Function.update_of_ne same] at found'
      -- Another descriptor has another number.
      have other : w.number fd' ≠ w.number fd := fun numbers =>
        same (serialized.apart fd' fd conn' conn found' found numbers)
      rw [Function.update_of_ne other, requestsOf_batch_other other, answersOf_batch_other other]
      exact serialized.serving fd' conn' found'
  case apart =>
    intro fd' fd'' conn' conn'' found' found'' numbers
    obtain ⟨before', was'⟩ := wasOpen found'
    obtain ⟨before'', was''⟩ := wasOpen found''
    exact serialized.apart fd' fd'' before' before'' was' was'' numbers
  case unused =>
    intro id above
    have other : id ≠ w.number fd := by
      have unnumbered : w.count ≤ id := above
      omega
    dsimp only
    rw [Function.update_of_ne other]
    exact serialized.unused id above

/-- The requests that a connection completes go to the end of the log. -/
theorem Serialized.ready (serialized : Serialized w log) {pollin : Option ReadResult}
    {pollout : Option WriteResult} (served : watch w (.ready fd pollin pollout) = .ok next) :
    ∃ log', Serialized next log' := by
  rw [watch] at served
  split at served
  next => exact ⟨log, (Except.ok.inj served) ▸ serialized⟩
  next conn found =>
    obtain ⟨below, serving⟩ := serialized.serving fd conn found
    cases read : serveRead { gMap := w.server.gMap, conn := conn } pollin with
    | error abort =>
      simp only [read] at served
      cases served
    | ok s =>
      cases wrote : serveWrite s (if conn.wantWrite then pollout else none) with
      | error abort =>
        simp only [read] at served
        change (serveWrite s _ >>= _) = _ at served
        rw [wrote] at served
        cases served
      | ok last =>
        simp only [read] at served
        change (serveWrite s _ >>= _) = _ at served
        rw [wrote] at served
        cases served
        obtain ⟨bodies, peer', peer_eq, gMap, served, stays⟩ := serving.round read wrote
        refine ⟨log ++ batch (w.number fd) bodies, ?_⟩
        rw [← peer_eq]
        exact serialized.extend found gMap served stays

theorem Serialized.step (serialized : Serialized w log) {event : Event}
    (stepped : watch w event = .ok next) : ∃ log', Serialized next log' := by
  cases event with
  | accept fd => exact ⟨log, serialized.accept stepped⟩
  | ready fd pollin pollout => exact serialized.ready stepped

end Step

/-- **One order for all connections.** In every run of the poll loop that does not abort, the
requests of all connections can be put in one order: the map is what they make of the empty map
one after another, the requests of each connection are those that it has sent in full, in the order
in which it sent them, and it has got a front of the answers that they get in that order. What an
open connection has not got yet is in its output. -/
theorem run_serialized (events : List Event) (server : Server)
    (ran : run start events = .ok server) :
    ∃ w log, events.foldlM watch .start = .ok w ∧ w.server = server ∧ Serialized w log := by
  have viewed := foldlM_view watch_server .start events
  change _ = run start events at viewed
  cases watched : events.foldlM watch .start with
  | error abort =>
    rw [watched, ran] at viewed
    cases viewed
  | ok w =>
    rw [watched, ran] at viewed
    refine ⟨w, ?_⟩
    have all : ∃ log, Serialized w log :=
      foldlM_ok_invariant (fun _ w => ∃ log, Serialized w log) ⟨[], serialized_start⟩
        (fun _ _ _ _ _ kept stepped => kept.elim fun _ serialized => serialized.step stepped)
        watched
    obtain ⟨log, serialized⟩ := all
    exact ⟨log, rfl, Except.ok.inj viewed, serialized⟩

/-- Two connections: one sets a key, and the other reads it. -/
theorem run_serialized_two :
    ∃ server, run start [.accept 4, .accept 5,
        .ready 4 (some (.bytes (framed (text "SET a 1")))) none,
        .ready 5 (some (.bytes (framed (text "GET a")))) none] = .ok server ∧
      ∃ w log, [Event.accept 4, .accept 5,
          .ready 4 (some (.bytes (framed (text "SET a 1")))) none,
          .ready 5 (some (.bytes (framed (text "GET a")))) none].foldlM watch .start = .ok w ∧
        w.server = server ∧ Serialized w log :=
  ⟨_, rfl, run_serialized _ _ rfl⟩

end SimpleServer
end ScuffedRedis
