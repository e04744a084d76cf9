import ScuffedRedis.Foundation.Simulation
import ScuffedRedis.Server.SimpleReads

/-!
# The read buffer of the simple server

However requests of up to `k_max_msg - 4` bytes are cut, their reads are answered like the
requests in order. A longer request that is accepted fills the buffer before it is complete, and
the next call of `handle_read` fails its assertion.
-/
namespace ScuffedRedis
namespace SimpleServer

open Protocol Foundation

/-! ### Splits of a growing stream -/

theorem Split.extend {received pending chunk rest : Bytes} {bodies now : List Bytes}
    {closing : Bool} (before : Split received bodies pending false)
    (split : Split (pending ++ chunk) now rest closing) :
    Split (received ++ chunk) (bodies ++ now) rest closing where
  bytes := by
    rw [before.bytes, List.append_assoc, split.bytes, stream_append, List.append_assoc]
  short := List.forall_mem_append.mpr ⟨before.short, split.short⟩
  stopped := split.stopped

/-- Nothing that follows ends a request that is too long. -/
theorem Split.closed_append {received rest : Bytes} {bodies : List Bytes}
    (split : Split received bodies rest true) (more : Bytes) :
    Split (received ++ more) bodies (rest ++ more) true where
  bytes := by rw [split.bytes, List.append_assoc]
  short := split.short
  stopped := TooLong.append split.stopped more

@[simp] theorem Session.after_nil (s : Session) : s.after [] s.conn.incoming false = s := by
  simp [Session.after, requests]

theorem Session.after_after (s : Session) (first second : List Bytes) (rest rest' : Bytes)
    (closing closing' : Bool) :
    (s.after first rest closing).after second rest' closing' =
      s.after (first ++ second) rest' (closing || closing') := by
  have either : (!(first ++ second).isEmpty) = (!first.isEmpty || !second.isEmpty) := by
    cases first <;> rfl
  simp only [Session.after, requests_append, Bool.or_assoc, either]

/-! ### Reads of a segmented stream -/

/-- The reads of one connection, with no write in between. -/
def readAll (s : Session) (chunks : List Bytes) : Except Abort Session :=
  chunks.foldlM (fun s chunk => handleRead s (.bytes chunk)) s

/-- Where there is room in the buffer, the read returns some bytes and not more than fit. -/
def Fits (conn : Conn) (chunk : Bytes) : Prop :=
  conn.incoming.length < kMaxMsg → chunk ≠ [] ∧ chunk.length ≤ kMaxMsg - conn.incoming.length

/-- Every read fits in the state in which it comes. -/
def FitsEach (s : Session) (chunks : List Bytes) : Prop :=
  ∀ before chunk after reached, chunks = before ++ chunk :: after →
    readAll s before = .ok reached → Fits reached.conn chunk

theorem FitsEach.tail {s next : Session} {chunk : Bytes} {chunks : List Bytes}
    (fits : FitsEach s (chunk :: chunks)) (stepped : handleRead s (.bytes chunk) = .ok next) :
    FitsEach next chunks := by
  intro before chunk' after reached split ran
  refine fits (chunk :: before) chunk' after reached (by rw [split, List.cons_append]) ?_
  rw [readAll, List.foldlM_cons, stepped]
  exact ran

/-- Portions that are small in all fit. -/
theorem fitsEach_of_length {s : Session} {chunks : List Bytes}
    (nonempty : ∀ chunk ∈ chunks, chunk ≠ [])
    (small : s.conn.incoming.length + chunks.flatten.length ≤ kMaxMsg) : FitsEach s chunks := by
  induction chunks generalizing s with
  | nil =>
    intro before chunk after reached split
    cases before <;> cases split
  | cons chunk chunks ih =>
    rw [List.forall_mem_cons] at nonempty
    rw [List.flatten_cons, List.length_append] at small
    obtain ⟨bodies, rest, closing, split, served⟩ :=
      handleRead_bytes nonempty.1 (show s.conn.incoming.length + chunk.length ≤ kMaxMsg by omega)
    -- The buffer keeps no more than it had and was given, so the later portions fit as well.
    have shorter : rest.length ≤ s.conn.incoming.length + chunk.length := by
      rw [← List.length_append, split.bytes, List.length_append]
      omega
    have later : FitsEach (s.after bodies rest closing) chunks :=
      ih nonempty.2 (show rest.length + _ ≤ kMaxMsg by omega)
    intro before chunk' after reached parts ran
    cases before with
    | nil =>
      cases parts
      cases ran
      exact fun _ => ⟨nonempty.1, by omega⟩
    | cons head before =>
      rw [List.cons_append, List.cons.injEq] at parts
      obtain ⟨rfl, parts⟩ := parts
      rw [readAll, List.foldlM_cons, served] at ran
      exact later before chunk' after reached parts ran

/-- What waits of short requests leaves room in the buffer. -/
theorem Waiting.length_lt {pending later : Bytes} {remaining : List Bytes}
    (waiting : Waiting pending) (bytes : pending ++ later = stream remaining)
    (nonempty : remaining ≠ []) (short : ∀ body ∈ remaining, body.length ≤ kMaxMsg - 4) :
    pending.length < kMaxMsg := by
  have bound : kMaxMsg = 4096 := rfl
  cases remaining with
  | nil => exact absurd rfl nonempty
  | cons body remaining =>
    by_cases long : 4 ≤ pending.length
    · -- The length that can be read is that of the next request.
      obtain ⟨len, read⟩ := readLen_isSome long
      have first := readLen_append read later
      rw [bytes, stream_cons, readLen_framed, Option.some.injEq] at first
      have small := short body List.mem_cons_self
      have missing := (waiting len read).2
      rw [← first, toNat_ofNat_length (by omega)] at missing
      omega
    · omega

section Segments

variable {s : Session} {bodies chunks : List Bytes} {trailing last missing : Bytes}

/-- Reads of requests go on where the reads before them stopped. -/
theorem readAll_pending (short : ∀ body ∈ bodies ++ [last], body.length ≤ kMaxMsg - 4)
    (unfinished : framed last = trailing ++ missing) (strict : missing ≠ [])
    (waiting : Waiting s.conn.incoming)
    (bytes : s.conn.incoming ++ chunks.flatten = stream bodies ++ trailing)
    (fits : FitsEach s chunks) :
    readAll s chunks = .ok (s.after bodies trailing false) := by
  have accepted : ∀ body ∈ bodies ++ [last], body.length ≤ kMaxMsg := fun body listed =>
    le_trans (short body listed) (Nat.sub_le _ _)
  induction chunks generalizing s bodies with
  | nil =>
    rw [List.flatten_nil, List.append_nil] at bytes
    cases bodies with
    | nil =>
      rw [stream_nil, List.nil_append] at bytes
      rw [← bytes, Session.after_nil]
      rfl
    | cons body bodies =>
      -- A whole request would be at the front of the buffer.
      rw [stream_cons, List.append_assoc] at bytes
      have request : Request (framed body) := ⟨body, accepted body List.mem_cons_self, rfl⟩
      exact absurd ⟨_, _, request, bytes⟩ waiting.not_ahead
  | cons chunk chunks ih =>
    -- With the missing bytes, all requests are complete.
    have whole : s.conn.incoming ++ ((chunk :: chunks).flatten ++ missing) =
        stream (bodies ++ [last]) := by
      rw [← List.append_assoc, bytes, stream_append, stream_cons, stream_nil, List.append_nil,
        unfinished, List.append_assoc]
    have room := waiting.length_lt whole (by simp) short
    obtain ⟨nonempty, fit⟩ := fits [] chunk chunks s rfl rfl room
    obtain ⟨now, rest, closing, split, served⟩ := handleRead_bytes nonempty
      (show s.conn.incoming.length + chunk.length ≤ kMaxMsg by omega)
    rw [List.flatten_cons, List.append_assoc, ← List.append_assoc, split.bytes,
      List.append_assoc] at whole
    obtain ⟨remaining, parts, tail⟩ := stream_prefix split.short accepted whole
    -- The last request is not among those that have arrived.
    rcases List.eq_nil_or_concat' remaining with rfl | ⟨bodies', last', rfl⟩
    · rw [stream_nil, List.append_eq_nil_iff, List.append_eq_nil_iff] at tail
      exact absurd tail.2.2 strict
    rw [← List.append_assoc, List.append_singleton_inj] at parts
    obtain ⟨rfl, rfl⟩ := parts
    -- What follows in the stream is a request that is accepted, so the read does not close.
    have open' : closing = false := by
      cases closing with
      | false => rfl
      | true =>
        have tooLong := TooLong.append split.stopped (chunks.flatten ++ missing)
        rw [tail] at tooLong
        cases bodies' with
        | nil =>
          exact absurd ⟨_, [], ⟨last, accepted last (by simp), rfl⟩, rfl⟩ tooLong.not_ahead
        | cons body bodies' =>
          exact absurd ⟨_, _, ⟨body, accepted body (by simp), rfl⟩, rfl⟩ tooLong.not_ahead
    subst open'
    have left : rest ++ chunks.flatten = stream bodies' ++ trailing := by
      rw [stream_append, stream_cons, stream_nil, List.append_nil, unfinished,
        ← List.append_assoc, ← List.append_assoc] at tail
      exact List.append_cancel_right tail
    have rest' : ∀ body ∈ bodies' ++ [last], body ∈ now ++ bodies' ++ [last] := by
      intro body listed
      rw [List.append_assoc]
      exact List.mem_append_right _ listed
    rw [readAll, List.foldlM_cons, served]
    refine (ih (s := s.after now rest false) (fun body listed => short body (rest' body listed))
      split.stopped left (fits.tail served) fun body listed =>
        accepted body (rest' body listed)).trans
      ?_
    rw [Session.after_after]
    rfl

/-- Requests and a strict prefix of one more, in any portions that the buffer takes: the answers
and the map are those of the requests in order, and the buffer holds the prefix. -/
theorem readAll_segments (gMap : Map) (short : ∀ body ∈ bodies, body.length ≤ kMaxMsg - 4)
    (shortLast : last.length ≤ kMaxMsg - 4) (unfinished : framed last = trailing ++ missing)
    (strict : missing ≠ []) (segments : chunks.flatten = stream bodies ++ trailing)
    (fits : FitsEach ⟨gMap, accepted⟩ chunks) :
    ∃ s, readAll ⟨gMap, accepted⟩ chunks = .ok s ∧ s.conn.incoming = trailing ∧
      (s.gMap, s.conn.outgoing) = requests gMap [] bodies ∧ s.conn.wantClose = false := by
  have each : ∀ body ∈ bodies ++ [last], body.length ≤ kMaxMsg - 4 :=
    List.forall_mem_append.mpr ⟨short, by simpa using shortLast⟩
  exact ⟨_, readAll_pending each unfinished strict waiting_nil segments fits, rfl, rfl, rfl⟩

end Segments

/-- A request and the front of the next one in three portions. -/
theorem readAll_three_segments :
    ∃ s, readAll ⟨fun _ => none, accepted⟩
        [(framed (text "PING")).take 3, (framed (text "PING")).drop 3, [4]] = .ok s ∧
      s.conn.incoming = [4] ∧
      (s.gMap, s.conn.outgoing) = requests (fun _ => none) [] [text "PING"] ∧
      s.conn.wantClose = false :=
  readAll_segments (fun _ => none) (by decide) (by decide)
    (show framed (text "PING") = [4] ++ (framed (text "PING")).drop 1 by decide) (by decide)
    (by decide)
    (fitsEach_of_length (by decide) (by decide))

/-! ### Calls until the connection closes -/

/-- The map at the time of the call, which other connections have changed, and what `read`
returns. -/
structure Call where
  gMap : Map
  result : ReadResult

/-- A call, after which the loop closes the connection if that is asked for. There are no calls
for a closed connection. -/
def readCall (conn : Option Conn) (call : Call) : Except Abort (Option Conn) :=
  match conn with
  | none => .ok none
  | some conn =>
    (handleRead { gMap := call.gMap, conn := conn } call.result).map fun s => s.conn.kept

def readCalls (conn : Option Conn) (calls : List Call) : Except Abort (Option Conn) :=
  calls.foldlM readCall conn

def received (calls : List Call) : Bytes := calls.flatMap (·.result.received)

/-- No read returns more than fits, wherever there is room. -/
def Delivered (calls : List Call) : Prop :=
  ∀ before call after conn, calls = before ++ call :: after →
    readCalls (some accepted) before = .ok (some conn) → conn.incoming.length < kMaxMsg →
    call.result.received.length ≤ kMaxMsg - conn.incoming.length

/-- The stream is still open, and what was received since the last whole request fills the buffer:
the front of a request that is accepted with more than `k_max_msg - 4` bytes. -/
structure Filled (calls : List Call) : Prop where
  goesOn : ∀ call ∈ calls, ¬ call.result.Ends
  full : ∃ bodies rest len, received calls = stream bodies ++ rest ∧
    (∀ body ∈ bodies, body.length ≤ kMaxMsg) ∧ rest.length = kMaxMsg ∧
    readLen rest = some len ∧ kMaxMsg - 4 < len.toNat ∧ len.toNat ≤ kMaxMsg

/-- What is known of a connection after these calls. -/
def Reached (calls : List Call) : Option Conn → Prop
  | some conn => (∀ call ∈ calls, ¬ call.result.Ends) ∧ conn.wantClose = false ∧
      conn.incoming.length ≤ kMaxMsg ∧ ∃ bodies, Split (received calls) bodies conn.incoming false
  | none => (∃ call ∈ calls, call.result.Ends) ∨
      ∃ bodies rest, Split (received calls) bodies rest true

theorem readCalls_cons {conn next : Option Conn} {call : Call}
    (stepped : readCall conn call = .ok next) (calls : List Call) :
    readCalls conn (call :: calls) = readCalls next calls := by
  rw [readCalls, List.foldlM_cons, stepped]
  rfl

theorem readCall_full {conn : Conn} (full : conn.incoming.length = kMaxMsg) (call : Call) :
    readCall (some conn) call = .error .readAssertion := by
  rw [readCall, handleRead, if_neg (by rw [full]; exact lt_irrefl _)]
  rfl

theorem received_concat (calls : List Call) (call : Call) :
    received (calls ++ [call]) = received calls ++ call.result.received := by
  rw [received, List.flatMap_append, List.flatMap_cons, List.flatMap_nil, List.append_nil]
  rfl

theorem reached_accepted : Reached [] (some accepted) :=
  ⟨by simp, rfl, Nat.zero_le _, [], waiting_nil.split⟩

theorem reached_readCall {calls : List Call} {call : Call} {conn next : Option Conn}
    (reached : Reached calls conn) (stepped : readCall conn call = .ok next) :
    Reached (calls ++ [call]) next := by
  cases conn with
  | none =>
    cases stepped
    rcases reached with ⟨earlier, listed, ends⟩ | ⟨bodies, rest, split⟩
    · exact .inl ⟨earlier, List.mem_append_left _ listed, ends⟩
    · exact .inr ⟨bodies, _, by rw [received_concat]; exact split.closed_append _⟩
  | some conn =>
    obtain ⟨goesOn, isOpen, small, bodies, before⟩ := reached
    rw [readCall] at stepped
    cases returned : handleRead { gMap := call.gMap, conn := conn } call.result with
    | error failure =>
      rw [returned] at stepped
      cases stepped
    | ok s =>
      rw [returned] at stepped
      cases stepped
      change Reached _ s.conn.kept
      rcases handleRead_ok returned with
        ⟨ends, closes⟩ | ⟨again, rfl⟩ | ⟨chunk, now, rest, closing, bytes, some, fits, split, rfl⟩
      · -- The stream has ended, and the connection is closed.
        rw [Conn.kept_closing (by rw [closes])]
        exact .inl ⟨call, by simp, ends⟩
      · rw [Conn.kept_open isOpen]
        have nothing : call.result.received = [] := by rw [again]; rfl
        refine ⟨?_, isOpen, small, bodies, ?_⟩
        · exact List.forall_mem_append.mpr ⟨goesOn, by simp [again, ReadResult.Ends]⟩
        · rwa [received_concat, nothing, List.append_nil]
      · -- The requests that the read completes follow those before it.
        have whole : Split (received (calls ++ [call])) (bodies ++ now) rest closing := by
          rw [received_concat, bytes]
          exact before.extend split
        cases closing with
        | true =>
          have closes : ((Session.mk call.gMap conn).after now rest true).conn.wantClose = true :=
            Bool.or_true _
          rw [Conn.kept_closing closes]
          exact .inr ⟨_, _, whole⟩
        | false =>
          have stillOpen : ((Session.mk call.gMap conn).after now rest false).conn.wantClose =
              false := by
            simp [Session.after, isOpen]
          rw [Conn.kept_open stillOpen]
          have shorter := congrArg List.length split.bytes
          rw [List.length_append, List.length_append] at shorter
          refine ⟨?_, stillOpen, ?_, _, whole⟩
          · exact List.forall_mem_append.mpr ⟨goesOn, by simpa [bytes, ReadResult.Ends] using some⟩
          · change rest.length ≤ kMaxMsg
            omega

theorem readCalls_reached {calls : List Call} {conn : Option Conn}
    (ran : readCalls (some accepted) calls = .ok conn) : Reached calls conn :=
  foldlM_ok_invariant Reached reached_accepted
    (fun _ _ _ _ _ reached stepped => reached_readCall reached stepped) ran

theorem Filled.split {calls : List Call} (filled : Filled calls) :
    ∃ bodies rest, rest.length = kMaxMsg ∧ Split (received calls) bodies rest false := by
  obtain ⟨bodies, rest, len, bytes, short, size, read, long, fits⟩ := filled.full
  refine ⟨bodies, rest, size, bytes, short, ?_⟩
  intro len' read'
  obtain rfl := Option.some.inj (read.symm.trans read')
  have bound : kMaxMsg = 4096 := rfl
  omega

/-- A connection that is still open is full in exactly this way. -/
theorem filled_iff {calls : List Call} {conn : Conn}
    (ran : readCalls (some accepted) calls = .ok (some conn)) :
    Filled calls ↔ conn.incoming.length = kMaxMsg := by
  obtain ⟨goesOn, -, -, bodies, split⟩ := readCalls_reached ran
  have bound : kMaxMsg = 4096 := rfl
  constructor
  · intro filled
    obtain ⟨bodies', rest, size, split'⟩ := filled.split
    obtain ⟨-, rfl, -⟩ := split.unique split'
    exact size
  · intro size
    obtain ⟨len, read⟩ := readLen_isSome (show 4 ≤ conn.incoming.length by omega)
    obtain ⟨fits, missing⟩ := (split.stopped : Waiting _) len read
    exact ⟨goesOn, bodies, _, len, split.bytes, split.short, size, read, by omega, fits⟩

/-- A connection that was closed was not full. -/
theorem not_filled_of_closed {calls : List Call}
    (ran : readCalls (some accepted) calls = .ok none) : ¬ Filled calls := by
  intro filled
  rcases readCalls_reached ran with ⟨call, listed, ends⟩ | ⟨bodies, rest, split⟩
  · exact filled.goesOn call listed ends
  · obtain ⟨bodies', rest', -, split'⟩ := filled.split
    obtain ⟨-, -, other⟩ := split.unique split'
    cases other

/-- The assertions of `handle_read` hold in all calls if and only if no call comes when the buffer
is full. -/
theorem readCalls_ok_iff {calls : List Call} (delivered : Delivered calls) :
    (∃ conn, readCalls (some accepted) calls = .ok conn) ↔
      ∀ before call after, calls = before ++ call :: after → ¬ Filled before := by
  constructor
  · rintro ⟨last, ran⟩ before call after rfl filled
    obtain ⟨conn, reached, rest⟩ := foldlM_append_ok ran
    cases conn with
    | none => exact not_filled_of_closed reached filled
    | some conn =>
      have full := (filled_iff reached).mp filled
      rw [List.foldlM_cons, readCall_full full] at rest
      cases rest
  · intro never
    cases ran : readCalls (some accepted) calls with
    | ok conn => exact ⟨conn, rfl⟩
    | error failure =>
      obtain ⟨before, call, after, conn, split, reached, failed⟩ := foldlM_error_iff.mp ran
      cases conn with
      | none => cases failed
      | some conn =>
        obtain ⟨-, -, small, -⟩ := readCalls_reached reached
        -- The call that fails had room, and it was given no more than that.
        have room : conn.incoming.length < kMaxMsg :=
          lt_of_le_of_ne small fun full => never _ _ _ split ((filled_iff reached).mpr full)
        obtain ⟨next, returned⟩ := handleRead_returns
          (s := { gMap := call.gMap, conn := conn }) room (delivered _ _ _ _ split reached room)
        rw [readCall, returned] at failed
        cases failed

/-- A request in two reads. -/
theorem readCalls_ok_iff_cut :
    (∃ conn, readCalls (some accepted) [⟨fun _ => none, .bytes ((framed (text "PING")).take 3)⟩,
        ⟨fun _ => none, .bytes ((framed (text "PING")).drop 3)⟩] = .ok conn) ↔
      ∀ before call after, [⟨fun _ => none, .bytes ((framed (text "PING")).take 3)⟩,
          ⟨fun _ => none, .bytes ((framed (text "PING")).drop 3)⟩] =
        before ++ call :: after → ¬ Filled before := by
  refine readCalls_ok_iff ?_
  intro before call after conn split ran room
  rcases before with _ | ⟨first, _ | ⟨second, before⟩⟩
  · cases split
    cases ran
    decide
  · cases split
    cases ran
    decide
  · cases before <;> cases split

/-- The front of a request whose body is as long as the buffer. -/
def longFront : Bytes := lengthBytes 4096 ++ List.replicate 4092 0

@[simp] theorem length_longFront : longFront.length = 4096 := by
  rw [longFront, List.length_append, List.length_replicate, length_lengthBytes]

theorem longFront_waiting : Waiting longFront := by
  intro len read
  have announced : readLen longFront = some 4096 := rfl
  obtain rfl := Option.some.inj (announced.symm.trans read)
  rw [length_longFront]
  decide

/-- A read of the whole front leaves a connection that is full. -/
theorem readCall_longFront (gMap : Map) :
    readCall (some accepted) ⟨gMap, .bytes longFront⟩ =
      .ok (some { accepted with incoming := longFront }) := by
  have nonempty : longFront ≠ [] := by
    intro empty
    cases empty
  obtain ⟨bodies, rest, closing, split, served⟩ :=
    handleRead_bytes (s := ⟨gMap, accepted⟩) nonempty
      (by rw [length_longFront]; exact le_refl kMaxMsg)
  obtain ⟨rfl, rfl, rfl⟩ := split.unique longFront_waiting.split
  rw [readCall, served]
  rfl

/-- One more byte of the request aborts the server. -/
theorem longFront_aborts :
    ∃ calls, Delivered calls ∧ readCalls (some accepted) calls = .error .readAssertion := by
  refine ⟨[⟨fun _ => none, .bytes longFront⟩, ⟨fun _ => none, .bytes [0]⟩], ?_, ?_⟩
  · intro before call after conn split ran room
    rcases before with _ | ⟨first, _ | ⟨second, before⟩⟩
    · cases split
      cases ran
      exact length_longFront.le
    · cases split
      rw [readCalls_cons (readCall_longFront _)] at ran
      cases ran
      exact absurd room (by rw [length_longFront]; exact lt_irrefl kMaxMsg)
    · cases before <;> cases split
  · rw [readCalls_cons (readCall_longFront _), readCalls, List.foldlM_cons,
      readCall_full length_longFront]
    rfl


end SimpleServer
end ScuffedRedis
