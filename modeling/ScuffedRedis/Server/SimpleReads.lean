import ScuffedRedis.Foundation.PrefixCode
import ScuffedRedis.Protocol.ParserLaws
import ScuffedRedis.Server.SimpleServer

/-!
# What a read of the simple server takes

Requests are a prefix code, so the stream alone says where they end. After a read the buffer
holds what follows the last request that arrived in full.
-/
namespace ScuffedRedis
namespace SimpleServer

open Protocol Foundation

/-! ### Streams of requests -/

/-- A body behind its length. -/
def framed (body : Bytes) : Bytes := lengthBytes (UInt32.ofNat body.length) ++ body

def stream (bodies : List Bytes) : Bytes := (bodies.map framed).flatten

/-- The frames that `tryOneRequest` accepts. -/
def Request (frame : Bytes) : Prop := ∃ body, body.length ≤ kMaxMsg ∧ frame = framed body

@[simp] theorem stream_nil : stream [] = [] := rfl

@[simp] theorem stream_cons (body : Bytes) (bodies : List Bytes) :
    stream (body :: bodies) = framed body ++ stream bodies := rfl

theorem stream_append (first second : List Bytes) :
    stream (first ++ second) = stream first ++ stream second := by
  rw [stream, List.map_append, List.flatten_append]
  rfl

@[simp] theorem length_framed (body : Bytes) : (framed body).length = 4 + body.length := by
  rw [framed, List.length_append, length_lengthBytes]

theorem framed_injective : Function.Injective framed := by
  intro body body' same
  have cut := congrArg (List.drop 4) same
  exact cut

theorem toNat_ofNat_length {body : Bytes} (short : body.length ≤ kMaxMsg) :
    (UInt32.ofNat body.length).toNat = body.length := by
  rw [UInt32.toNat_ofNat']
  exact Nat.mod_eq_of_lt (lt_of_le_of_lt short (by decide))

theorem toNat_four_add {len : UInt32} (short : len.toNat ≤ kMaxMsg) :
    (4 + len).toNat = 4 + len.toNat := by
  have bound : kMaxMsg = 4096 := rfl
  rw [UInt32.toNat_add]
  exact Nat.mod_eq_of_lt (by simp only [UInt32.reduceToNat]; omega)

theorem readLen_framed (body rest : Bytes) :
    readLen (framed body ++ rest) = some (UInt32.ofNat body.length) := by
  simp only [framed, lengthBytes, List.cons_append, readLen, lengthField_lengthBytes]

/-- The length stands in the first four bytes. -/
theorem readLen_append {buffer : Bytes} {len : UInt32} (read : readLen buffer = some len)
    (more : Bytes) : readLen (buffer ++ more) = some len := by
  unfold readLen at read
  split at read
  · exact read
  · cases read

theorem readLen_isSome {buffer : Bytes} (long : 4 ≤ buffer.length) :
    ∃ len, readLen buffer = some len := by
  match buffer, long with
  | _ :: _ :: _ :: _ :: _, _ => exact ⟨_, rfl⟩

/-- What the length announces is there, so a request is. -/
theorem framed_of_readLen {buffer : Bytes} {len : UInt32} (read : readLen buffer = some len)
    (complete : 4 + len.toNat ≤ buffer.length) :
    ∃ body rest, body.length = len.toNat ∧ buffer = framed body ++ rest := by
  unfold readLen at read
  split at read
  next b0 b1 b2 b3 tail =>
    cases read
    simp only [List.length_cons] at complete
    have size : (tail.take (Parser.lengthField b0 b1 b2 b3).toNat).length =
        (Parser.lengthField b0 b1 b2 b3).toNat := by
      rw [List.length_take]
      omega
    refine ⟨_, tail.drop (Parser.lengthField b0 b1 b2 b3).toNat, size, ?_⟩
    rw [framed, size, UInt32.ofNat_toNat, lengthBytes_lengthField, List.append_assoc,
      List.take_append_drop]
    rfl
  next => cases read

theorem prefixCode : PrefixCode Request where
  nonempty := by
    rintro w ⟨body, -, rfl⟩ empty
    cases empty
  free := by
    rintro w w' rest rest' ⟨body, short, rfl⟩ ⟨body', short', rfl⟩ same
    -- The length at the front is the same, so the frames are equally long.
    have lengths := congrArg readLen same
    rw [readLen_framed, readLen_framed, Option.some.injEq] at lengths
    have size := congrArg UInt32.toNat lengths
    rw [toNat_ofNat_length short, toNat_ofNat_length short'] at size
    exact (List.append_inj same (by rw [length_framed, length_framed, size])).1

theorem requests_of_short {bodies : List Bytes} (short : ∀ body ∈ bodies, body.length ≤ kMaxMsg) :
    ∀ frame ∈ bodies.map framed, Request frame := by
  intro frame listed
  obtain ⟨body, member, rfl⟩ := List.mem_map.mp listed
  exact ⟨body, short body member, rfl⟩

/-! ### Where the requests of a stream end -/

/-- The next request has not arrived in full. -/
def Waiting (rest : Bytes) : Prop :=
  ∀ len, readLen rest = some len → len.toNat ≤ kMaxMsg ∧ rest.length < 4 + len.toNat

/-- The next request is too long. -/
def TooLong (rest : Bytes) : Prop := ∃ len, readLen rest = some len ∧ kMaxMsg < len.toNat

/-- The loop stops at `rest`, and closes the connection or not. -/
def Stopped : Bool → Bytes → Prop
  | true, rest => TooLong rest
  | false, rest => Waiting rest

/-- `rest` follows the last request that arrived in full. -/
structure Split (received : Bytes) (bodies : List Bytes) (rest : Bytes) (closing : Bool) :
    Prop where
  bytes : received = stream bodies ++ rest
  short : ∀ body ∈ bodies, body.length ≤ kMaxMsg
  stopped : Stopped closing rest

theorem waiting_nil : Waiting [] := by
  intro len read
  cases read

theorem Waiting.split {rest : Bytes} (waiting : Waiting rest) : Split rest [] rest false :=
  ⟨rfl, by simp, waiting⟩

theorem Waiting.not_ahead {rest : Bytes} (waiting : Waiting rest) : ¬ Ahead Request rest := by
  rintro ⟨frame, later, ⟨body, short, rfl⟩, rfl⟩
  have missing := (waiting _ (readLen_framed body later)).2
  rw [toNat_ofNat_length short, List.length_append, length_framed] at missing
  omega

theorem TooLong.not_ahead {rest : Bytes} (tooLong : TooLong rest) : ¬ Ahead Request rest := by
  rintro ⟨frame, later, ⟨body, short, rfl⟩, rfl⟩
  obtain ⟨len, read, long⟩ := tooLong
  rw [readLen_framed, Option.some.injEq] at read
  rw [← read, toNat_ofNat_length short] at long
  omega

theorem TooLong.append {rest : Bytes} (tooLong : TooLong rest) (more : Bytes) :
    TooLong (rest ++ more) := by
  obtain ⟨len, read, long⟩ := tooLong
  exact ⟨len, readLen_append read more, long⟩

theorem Waiting.not_tooLong {rest : Bytes} (waiting : Waiting rest) : ¬ TooLong rest := by
  rintro ⟨len, read, long⟩
  have := (waiting len read).1
  omega

theorem Stopped.not_ahead {closing : Bool} {rest : Bytes} (stopped : Stopped closing rest) :
    ¬ Ahead Request rest := by
  cases closing with
  | true => exact TooLong.not_ahead stopped
  | false => exact Waiting.not_ahead stopped

/-- There is only one way to split what was received. -/
theorem Split.unique {received rest rest' : Bytes} {bodies bodies' : List Bytes}
    {closing closing' : Bool} (split : Split received bodies rest closing)
    (split' : Split received bodies' rest' closing') :
    bodies = bodies' ∧ rest = rest' ∧ closing = closing' := by
  obtain ⟨frames, rfl⟩ := prefixCode.split_unique (requests_of_short split.short)
    (requests_of_short split'.short) split.stopped.not_ahead split'.stopped.not_ahead
    (split.bytes.symm.trans split'.bytes)
  refine ⟨framed_injective.list_map frames, rfl, ?_⟩
  -- What is left of the bytes cannot both wait and be too long.
  have stops := split.stopped
  have stops' := split'.stopped
  cases closing <;> cases closing'
  · rfl
  · exact absurd stops' (Waiting.not_tooLong stops)
  · exact absurd stops (Waiting.not_tooLong stops')
  · rfl

/-- Requests that arrived of a longer stream are the first ones of it. -/
theorem stream_prefix {now all : List Bytes} {rest later : Bytes}
    (short : ∀ body ∈ now, body.length ≤ kMaxMsg) (short' : ∀ body ∈ all, body.length ≤ kMaxMsg)
    (same : stream now ++ (rest ++ later) = stream all) :
    ∃ remaining, all = now ++ remaining ∧ rest ++ later = stream remaining := by
  obtain ⟨frames, split, tail⟩ := prefixCode.split_prefix (requests_of_short short)
    (requests_of_short short') same
  obtain ⟨first, remaining, rfl, same, rfl⟩ := List.map_eq_append_iff.mp split
  rw [framed_injective.list_map same]
  exact ⟨remaining, rfl, tail⟩

/-! ### One read -/

/-- The map and the output after these requests. -/
def requests (gMap : Map) (out : Bytes) (bodies : List Bytes) : Map × Bytes :=
  bodies.foldl (fun state body => doRequest state.1 body state.2) (gMap, out)

theorem requests_append (gMap : Map) (out : Bytes) (first second : List Bytes) :
    requests gMap out (first ++ second) =
      requests (requests gMap out first).1 (requests gMap out first).2 second :=
  List.foldl_append

/-- The session after these requests, with `rest` in the buffer. -/
def Session.after (s : Session) (bodies : List Bytes) (rest : Bytes) (closing : Bool) :
    Session where
  gMap := (requests s.gMap s.conn.outgoing bodies).1
  conn :=
    { s.conn with
      incoming := rest
      outgoing := (requests s.gMap s.conn.outgoing bodies).2
      wantWrite := s.conn.wantWrite || !bodies.isEmpty
      wantClose := s.conn.wantClose || closing }

section Loop

variable {s : Session}

theorem tryOneRequest_waiting (waiting : Waiting s.conn.incoming) :
    tryOneRequest s = (false, s) := by
  unfold tryOneRequest
  split
  next => rfl
  next len read =>
    obtain ⟨short, missing⟩ := waiting len read
    rw [if_neg (by omega), if_pos (by rw [toNat_four_add short]; exact missing)]

theorem tryOneRequest_tooLong (tooLong : TooLong s.conn.incoming) :
    tryOneRequest s = (false, { s with conn := { s.conn with wantClose := true } }) := by
  obtain ⟨len, read, long⟩ := tooLong
  simp only [tryOneRequest, read, if_pos long]

theorem tryOneRequest_framed {body rest : Bytes} (short : body.length ≤ kMaxMsg)
    (incoming : s.conn.incoming = framed body ++ rest) :
    tryOneRequest s = (true, s.after [body] rest false) := by
  have size := toNat_ofNat_length short
  have total : (4 + UInt32.ofNat body.length).toNat = (framed body).length := by
    rw [toNat_four_add (by omega), size, length_framed]
  have cut : (framed body ++ rest).drop 4 = body ++ rest := rfl
  rw [tryOneRequest, incoming, readLen_framed]
  simp only [total, size, cut]
  rw [if_neg (by omega), if_neg (by rw [List.length_append]; omega), List.take_left, bufConsume,
    List.drop_left]
  simp [Session.after, requests]

/-- At the front stands a request, or the loop stops. -/
theorem request_or_stopped (buffer : Bytes) :
    (∃ body rest, body.length ≤ kMaxMsg ∧ buffer = framed body ++ rest) ∨
      ∃ closing, Stopped closing buffer := by
  by_cases tooLong : TooLong buffer
  · exact .inr ⟨true, tooLong⟩
  by_cases waiting : Waiting buffer
  · exact .inr ⟨false, waiting⟩
  -- A length is there that is not too long, with the body behind it.
  left
  rw [Waiting] at waiting
  push Not at waiting
  obtain ⟨len, read, complete⟩ := waiting
  have short : len.toNat ≤ kMaxMsg := by
    by_contra long
    exact tooLong ⟨len, read, by omega⟩
  obtain ⟨body, rest, size, split⟩ := framed_of_readLen read (complete short)
  exact ⟨body, rest, by omega, split⟩

theorem tryRequests_stopped {closing : Bool} (stopped : Stopped closing s.conn.incoming)
    (fuel : Nat) : tryRequests (fuel + 1) s = s.after [] s.conn.incoming closing := by
  cases closing with
  | true =>
    rw [tryRequests, tryOneRequest_tooLong stopped]
    simp [Session.after, requests]
  | false =>
    rw [tryRequests, tryOneRequest_waiting stopped]
    simp [Session.after, requests]

/-- The loop serves the requests that are there. -/
theorem tryRequests_spec {fuel : Nat} (enough : s.conn.incoming.length < fuel) :
    ∃ bodies rest closing, Split s.conn.incoming bodies rest closing ∧
      tryRequests fuel s = s.after bodies rest closing := by
  induction fuel generalizing s with
  | zero => omega
  | succ fuel ih =>
    rcases request_or_stopped s.conn.incoming with ⟨body, rest, short, split⟩ | ⟨closing, stopped⟩
    · -- A request takes bytes from the buffer, so the fuel lasts.
      have shorter : rest.length < fuel := by
        rw [split, List.length_append, length_framed] at enough
        omega
      obtain ⟨bodies, last, closing, parts, served⟩ := ih (s := s.after [body] rest false) shorter
      refine ⟨body :: bodies, last, closing, ⟨?_, ?_, parts.stopped⟩, ?_⟩
      · rw [split, stream_cons, List.append_assoc, ← parts.bytes]
        rfl
      · exact List.forall_mem_cons.mpr ⟨short, parts.short⟩
      · rw [tryRequests, tryOneRequest_framed short split]
        simp only [served]
        simp [Session.after, requests]
    · exact ⟨[], _, closing, ⟨rfl, by simp, stopped⟩, tryRequests_stopped stopped fuel⟩

/-- A read that fits serves the requests that it completes. -/
theorem handleRead_bytes {chunk : Bytes} (nonempty : chunk ≠ [])
    (fits : s.conn.incoming.length + chunk.length ≤ kMaxMsg) :
    ∃ bodies rest closing, Split (s.conn.incoming ++ chunk) bodies rest closing ∧
      handleRead s (.bytes chunk) = .ok (s.after bodies rest closing) := by
  have positive := List.length_pos_iff.mpr nonempty
  obtain ⟨bodies, rest, closing, split, served⟩ :=
    tryRequests_spec (s := { s with conn := { s.conn with incoming := s.conn.incoming ++ chunk } })
      (Nat.lt_succ_self _)
  refine ⟨bodies, rest, closing, split, ?_⟩
  rw [handleRead, if_pos (by omega)]
  cases chunk with
  | nil => exact absurd rfl nonempty
  | cons byte chunk =>
    rw [← List.length_append] at fits
    simp only [if_pos fits]
    exact congrArg Except.ok served

end Loop

/-! ### What a read returns -/

def ReadResult.received : ReadResult → Bytes
  | .bytes chunk => chunk
  | .again | .failed => []

/-- The stream ended, or the connection broke. -/
def ReadResult.Ends : ReadResult → Prop
  | .bytes chunk => chunk = []
  | .again => False
  | .failed => True

/-- A read that returns has found room, and ends the connection, leaves the session, or takes
what it was given. -/
theorem handleRead_ok {s next : Session} {result : ReadResult}
    (returned : handleRead s result = .ok next) :
    result.Ends ∧ next.conn = { s.conn with incoming := next.conn.incoming, wantClose := true } ∨
      result = .again ∧ next = s ∨
      ∃ chunk bodies rest closing, result = .bytes chunk ∧ chunk ≠ [] ∧
        s.conn.incoming.length + chunk.length ≤ kMaxMsg ∧
        Split (s.conn.incoming ++ chunk) bodies rest closing ∧
        next = s.after bodies rest closing := by
  by_cases room : s.conn.incoming.length < kMaxMsg
  · rw [handleRead, if_pos room] at returned
    rcases result with (_ | ⟨byte, chunk⟩) | _ | _
    · cases returned
      exact .inl ⟨rfl, rfl⟩
    · -- The second assertion has held.
      have fits : s.conn.incoming.length + (byte :: chunk).length ≤ kMaxMsg := by
        by_contra tooMany
        rw [← List.length_append] at tooMany
        simp only [if_neg tooMany] at returned
        cases returned
      obtain ⟨bodies, rest, closing, split, served⟩ :=
        handleRead_bytes (List.cons_ne_nil byte chunk) fits
      rw [handleRead, if_pos room] at served
      exact .inr (.inr ⟨_, bodies, rest, closing, rfl, List.cons_ne_nil byte chunk, fits, split,
        Except.ok.inj (returned.symm.trans served)⟩)
    · cases returned
      exact .inr (.inl ⟨rfl, rfl⟩)
    · cases returned
      exact .inl ⟨trivial, rfl⟩
  · rw [handleRead, if_neg room] at returned
    cases returned

theorem handleRead_error {s : Session} {result : ReadResult} {abort : Abort}
    (failed : handleRead s result = .error abort) : abort = .readAssertion := by
  by_cases room : s.conn.incoming.length < kMaxMsg
  · rw [handleRead, if_pos room] at failed
    rcases result with (_ | ⟨byte, chunk⟩) | _ | _
    · cases failed
    · by_cases fits : (s.conn.incoming ++ byte :: chunk).length ≤ kMaxMsg
      · simp only [if_pos fits] at failed
        cases failed
      · simp only [if_neg fits] at failed
        cases failed
        rfl
    · cases failed
    · cases failed
  · rw [handleRead, if_neg room] at failed
    cases failed
    rfl

/-- The assertions hold where there is room and the read returns what fits. -/
theorem handleRead_returns {s : Session} {result : ReadResult}
    (room : s.conn.incoming.length < kMaxMsg)
    (fits : result.received.length ≤ kMaxMsg - s.conn.incoming.length) :
    ∃ next, handleRead s result = .ok next := by
  rcases result with (_ | ⟨byte, chunk⟩) | _ | _
  · exact ⟨_, if_pos room⟩
  · obtain ⟨_, _, _, -, served⟩ := handleRead_bytes (List.cons_ne_nil byte chunk)
      (show s.conn.incoming.length + (byte :: chunk).length ≤ kMaxMsg by
        rw [ReadResult.received] at fits
        omega)
    exact ⟨_, served⟩
  · exact ⟨_, if_pos room⟩
  · exact ⟨_, if_pos room⟩

end SimpleServer
end ScuffedRedis
