import ScuffedRedis.Foundation.Simulation
import ScuffedRedis.Server.SimpleReads

/-!
# The answers of the simple server

A GET without a space and a SET without two are taken from the buffer and not answered. When a
read takes only such requests and nothing else is to be written, the connection asks for a write
with nothing to write.
-/
namespace ScuffedRedis
namespace SimpleServer

open Protocol Foundation

/-! ### Which requests are answered -/

/-- A GET has a space, and a SET has two. -/
def Answered (body : Bytes) : Prop :=
  (body.take 3 = text "GET" → space ∈ body) ∧ (body.take 3 = text "SET" → 2 ≤ body.count space)

instance (body : Bytes) : Decidable (Answered body) := inferInstanceAs (Decidable (_ ∧ _))

/-- The output grows by exactly one frame. -/
def AnswersOnce (gMap : Map) (body out : Bytes) : Prop :=
  ∃ resp, resp.length < 2 ^ 32 ∧ (doRequest gMap body out).2 = out ++ framed resp

theorem idxOf?_of_notMem {str : Bytes} (absent : space ∉ str) : str.idxOf? space = none := by
  induction str with
  | nil => rfl
  | cons byte str ih =>
    rw [List.mem_cons, not_or] at absent
    rw [List.idxOf?_cons, if_neg (by simpa using Ne.symm absent.1), ih absent.2]
    rfl

theorem idxOf?_append {pre : Bytes} (absent : space ∉ pre) (post : Bytes) :
    (pre ++ space :: post).idxOf? space = some pre.length := by
  induction pre with
  | nil => rfl
  | cons byte pre ih =>
    rw [List.mem_cons, not_or] at absent
    rw [List.cons_append, List.idxOf?_cons, if_neg (by simpa using Ne.symm absent.1),
      ih absent.2]
    rfl

theorem find_absent {cmd : Bytes} (absent : space ∉ cmd) : find cmd 0 = none := by
  rw [find, List.drop_zero, idxOf?_of_notMem absent]
  rfl

theorem find_first {pre : Bytes} (absent : space ∉ pre) (post : Bytes) :
    find (pre ++ space :: post) 0 = some pre.length := by
  rw [find, List.drop_zero, idxOf?_append absent]
  exact congrArg some (Nat.zero_add _)

theorem find_next (pre post : Bytes) :
    find (pre ++ space :: post) (pre.length + 1) =
      (post.idxOf? space).map fun i => pre.length + 1 + i := by
  have rest : (pre ++ space :: post).drop (pre.length + 1) = post := by
    rw [← List.drop_drop, List.drop_left]
    rfl
  rw [find, rest]

theorem count_first {pre : Bytes} (absent : space ∉ pre) (post : Bytes) :
    (pre ++ space :: post).count space = post.count space + 1 := by
  rw [List.count_append, List.count_eq_zero_of_not_mem absent, List.count_cons_self,
    Nat.zero_add]

theorem respond_eq (out resp : Bytes) :
    ∃ sent, sent.length < 2 ^ 32 ∧ respond out resp = out ++ framed sent := by
  have size := (UInt32.ofNat resp.length).toNat_lt
  have fits : (UInt32.ofNat resp.length).toNat ≤ resp.length := by
    rw [UInt32.toNat_ofNat']
    exact Nat.mod_le _ _
  have sent : (resp.take (UInt32.ofNat resp.length).toNat).length =
      (UInt32.ofNat resp.length).toNat := by
    rw [List.length_take]
    exact Nat.min_eq_left fits
  refine ⟨resp.take (UInt32.ofNat resp.length).toNat, by rw [sent]; exact size, ?_⟩
  rw [framed, sent, UInt32.ofNat_toNat, respond, bufAppend, bufAppend, List.append_assoc]

theorem answersOnce_of_respond {gMap : Map} {body out : Bytes} (resp : Bytes)
    (answer : (doRequest gMap body out).2 = respond out resp) : AnswersOnce gMap body out := by
  obtain ⟨sent, size, same⟩ := respond_eq out resp
  exact ⟨sent, size, answer.trans same⟩

section Branches

variable {body : Bytes}

theorem doRequest_ping (ping : body.take 4 = text "PING") (gMap : Map) (out : Bytes) :
    Answered body ∧ AnswersOnce gMap body out := by
  have front : body.take 3 = (body.take 4).take 3 := by
    rw [List.take_take]
    rfl
  rw [ping] at front
  refine ⟨⟨?_, ?_⟩, answersOnce_of_respond (text "PONG") ?_⟩
  · exact fun get => absurd (front.symm.trans get) (by decide)
  · exact fun set => absurd (front.symm.trans set) (by decide)
  · rw [doRequest, if_pos ping]

theorem doRequest_get (notPing : body.take 4 ≠ text "PING") (get : body.take 3 = text "GET")
    (gMap : Map) (out : Bytes) :
    Answered body ∧ AnswersOnce gMap body out ∨
      ¬ Answered body ∧ doRequest gMap body out = (gMap, out) := by
  by_cases spaced : space ∈ body
  · left
    refine ⟨⟨fun _ => spaced, fun set => absurd (get.symm.trans set) (by decide)⟩, ?_⟩
    obtain ⟨pre, post, rfl, absent⟩ := List.eq_append_cons_of_mem spaced
    apply answersOnce_of_respond ((gMap ((pre ++ space :: post).drop 4)).getD [])
    simp only [doRequest, if_neg notPing, if_pos get, find_first absent]
  · right
    refine ⟨fun answered => spaced (answered.1 get), ?_⟩
    simp only [doRequest, if_neg notPing, if_pos get, find_absent spaced]

theorem doRequest_set (notPing : body.take 4 ≠ text "PING") (set : body.take 3 = text "SET")
    (gMap : Map) (out : Bytes) :
    Answered body ∧ AnswersOnce gMap body out ∨
      ¬ Answered body ∧ doRequest gMap body out = (gMap, out) := by
  have notGet : body.take 3 ≠ text "GET" := by
    rw [set]
    decide
  by_cases spaced : space ∈ body
  · obtain ⟨pre, post, rfl, absent⟩ := List.eq_append_cons_of_mem spaced
    -- The key goes up to a second space, if there is one.
    have count := count_first absent post
    by_cases again : space ∈ post
    · left
      have more := List.count_pos_iff.mpr again
      refine ⟨⟨fun get => absurd get notGet, fun _ => by omega⟩, ?_⟩
      obtain ⟨pre', post', rfl, absent'⟩ := List.eq_append_cons_of_mem again
      apply answersOnce_of_respond (text "OK")
      simp only [doRequest, if_neg notPing, if_neg notGet, if_pos set, find_first absent,
        find_next, idxOf?_append absent', Option.map_some]
    · right
      rw [List.count_eq_zero_of_not_mem again] at count
      refine ⟨fun answered => ?_, ?_⟩
      · have two := answered.2 set
        omega
      · simp only [doRequest, if_neg notPing, if_neg notGet, if_pos set, find_first absent,
          find_next, idxOf?_of_notMem again, Option.map_none]
  · right
    refine ⟨fun answered => ?_, ?_⟩
    · have two := answered.2 set
      rw [List.count_eq_zero_of_not_mem spaced] at two
      cases two
    · simp only [doRequest, if_neg notPing, if_neg notGet, if_pos set, find_absent spaced]

/-- A request is answered once, or it changes nothing. -/
theorem doRequest_cases (gMap : Map) (body out : Bytes) :
    Answered body ∧ AnswersOnce gMap body out ∨
      ¬ Answered body ∧ doRequest gMap body out = (gMap, out) := by
  by_cases ping : body.take 4 = text "PING"
  · exact .inl (doRequest_ping ping gMap out)
  by_cases get : body.take 3 = text "GET"
  · exact doRequest_get ping get gMap out
  by_cases set : body.take 3 = text "SET"
  · exact doRequest_set ping set gMap out
  left
  refine ⟨⟨fun other => absurd other get, fun other => absurd other set⟩, ?_⟩
  apply answersOnce_of_respond (text "ERROR")
  rw [doRequest, if_neg ping, if_neg get, if_neg set]

end Branches

theorem append_framed_ne (out resp : Bytes) : out ++ framed resp ≠ out := by
  intro same
  have longer := congrArg List.length same
  rw [List.length_append, length_framed] at longer
  omega

theorem doRequest_answersOnce_iff (gMap : Map) (body out : Bytes) :
    AnswersOnce gMap body out ↔ Answered body := by
  rcases doRequest_cases gMap body out with ⟨answered, once⟩ | ⟨silent, same⟩
  · exact ⟨fun _ => answered, fun _ => once⟩
  · refine ⟨fun ⟨resp, _, answer⟩ => ?_, fun answered => absurd answered silent⟩
    rw [same] at answer
    exact absurd answer.symm (append_framed_ne out resp)

/-- Nothing is to be written after requests if and only if nothing was before and none of them is
answered. -/
theorem requests_eq_nil_iff (gMap : Map) (out : Bytes) (bodies : List Bytes) :
    (requests gMap out bodies).2 = [] ↔ out = [] ∧ ∀ body ∈ bodies, ¬ Answered body := by
  induction bodies generalizing gMap out with
  | nil => simp [requests]
  | cons body bodies ih =>
    change (requests (doRequest gMap body out).1 (doRequest gMap body out).2 bodies).2 = [] ↔ _
    rw [ih, List.forall_mem_cons]
    rcases doRequest_cases gMap body out with ⟨answered, resp, -, answer⟩ | ⟨silent, same⟩
    · rw [answer]
      refine ⟨fun all => absurd (List.append_eq_nil_iff.mp all.1).2 ?_,
        fun all => absurd answered all.2.1⟩
      exact append_framed_ne [] resp
    · rw [same]
      exact ⟨fun all => ⟨all.1, silent, all.2⟩, fun all => ⟨all.1, all.2.2⟩⟩

/-! ### Connections with something to write -/

/-- Where a write is asked for, there is something to write. -/
def Backed (conn : Conn) : Prop := conn.wantWrite = true → conn.outgoing ≠ []

/-- The read takes requests, but none that is answered, and nothing else is to be written. -/
structure SilentRead (conn : Conn) (chunk : Bytes) : Prop where
  wanted : conn.wantRead = true
  nothing : conn.outgoing = []
  some : chunk ≠ []
  fits : conn.incoming.length + chunk.length ≤ kMaxMsg
  silent : ∃ bodies rest closing, Split (conn.incoming ++ chunk) bodies rest closing ∧
    bodies ≠ [] ∧ ∀ body ∈ bodies, ¬ Answered body

/-- A step in which a connection takes such a read. -/
def Silent (server : Server) : Event → Prop
  | .accept _ => False
  | .ready fd pollin _ => ∃ conn chunk, server.fd2conn fd = some conn ∧
      pollin = some (.bytes chunk) ∧ SilentRead conn chunk

theorem backed_after_iff {s : Session} (backed : Backed s.conn) {bodies : List Bytes}
    {rest : Bytes} {closing : Bool} :
    Backed (s.after bodies rest closing).conn ↔
      ¬ (s.conn.outgoing = [] ∧ bodies ≠ [] ∧ ∀ body ∈ bodies, ¬ Answered body) := by
  change ((s.conn.wantWrite || !bodies.isEmpty) = true →
    ¬ (requests s.gMap s.conn.outgoing bodies).2 = []) ↔ _
  rw [requests_eq_nil_iff, Bool.or_eq_true, Bool.not_eq_true', List.isEmpty_eq_false_iff]
  constructor
  · rintro answered ⟨nothing, taken, silent⟩
    exact answered (.inr taken) ⟨nothing, silent⟩
  · rintro notSilent (wanted | taken) ⟨nothing, silent⟩
    · exact backed wanted nothing
    · exact notSilent ⟨nothing, taken, silent⟩

/-- After a read there is something to write wherever a write is asked for, unless the read was a
silent one. -/
theorem backed_serveRead_iff {s next : Session} {pollin : Option ReadResult}
    (backed : Backed s.conn) (returned : serveRead s pollin = .ok next) :
    Backed next.conn ↔ ∀ chunk, pollin = some (.bytes chunk) → ¬ SilentRead s.conn chunk := by
  cases pollin with
  | none =>
    cases returned
    exact ⟨fun _ _ other => (by cases other), fun _ => backed⟩
  | some result =>
    rw [serveRead] at returned
    by_cases wanted : s.conn.wantRead = true
    · rw [if_pos wanted] at returned
      rcases handleRead_ok returned with
        ⟨ends, closes⟩ | ⟨rfl, rfl⟩ | ⟨chunk, bodies, rest, closing, rfl, some, fits, split, rfl⟩
      · have kept : Backed next.conn := by
          rw [closes]
          exact backed
        refine ⟨fun _ chunk same silent => ?_, fun _ => kept⟩
        cases same
        exact silent.some ends
      · exact ⟨fun _ _ other => (by cases other), fun _ => backed⟩
      · rw [backed_after_iff backed]
        constructor
        · intro answered chunk' same silent
          cases same
          -- The bytes can be split in one way only.
          obtain ⟨bodies', rest', closing', split', taken, unanswered⟩ := silent.silent
          obtain ⟨rfl, -, -⟩ := split.unique split'
          exact answered ⟨silent.nothing, taken, unanswered⟩
        · rintro never ⟨nothing, taken, unanswered⟩
          exact never chunk rfl ⟨wanted, nothing, some, fits, bodies, rest, closing, split, taken,
            unanswered⟩
    · rw [if_neg wanted] at returned
      cases returned
      exact ⟨fun _ _ _ silent => wanted silent.wanted, fun _ => backed⟩

/-- With something to write the assertion holds, and another write is asked for only if something
is left. -/
theorem handleWrite_backed {conn : Conn} (nonempty : conn.outgoing ≠ []) (result : WriteResult) :
    ∃ next, handleWrite conn result = .ok next ∧ Backed next := by
  have positive := List.length_pos_iff.mpr nonempty
  simp only [handleWrite, if_pos positive]
  cases result with
  | again => exact ⟨conn, rfl, fun _ => nonempty⟩
  | failed => exact ⟨_, rfl, fun _ => nonempty⟩
  | wrote count =>
    by_cases all : (bufConsume conn.outgoing count).length = 0
    · simp only [if_pos all]
      exact ⟨_, rfl, fun other => by cases other⟩
    · simp only [if_neg all]
      exact ⟨_, rfl, fun _ empty => all (congrArg List.length empty)⟩

theorem serveWrite_backed {s : Session} (backed : Backed s.conn) (pollout : Option WriteResult) :
    ∃ next, serveWrite s pollout = .ok next ∧ Backed next.conn := by
  cases pollout with
  | none => exact ⟨s, rfl, backed⟩
  | some result =>
    by_cases wanted : s.conn.wantWrite = true
    · obtain ⟨conn, wrote, kept⟩ := handleWrite_backed (backed wanted) result
      exact ⟨{ s with conn := conn }, by rw [serveWrite, if_pos wanted, wrote]; rfl, kept⟩
    · exact ⟨s, if_neg wanted, backed⟩

theorem serveRead_wanted {s : Session} (wanted : s.conn.wantRead = true) (result : ReadResult) :
    serveRead s (some result) = handleRead s result := if_pos wanted

theorem serveRead_error {s : Session} {pollin : Option ReadResult} {abort : Abort}
    (failed : serveRead s pollin = .error abort) : abort = .readAssertion := by
  unfold serveRead at failed
  split at failed
  · split at failed
    · exact handleRead_error failed
    · cases failed
  · cases failed

/-! ### Runs of the loop -/

def AllBacked (server : Server) : Prop :=
  ∀ fd conn, server.fd2conn fd = some conn → Backed conn

theorem AllBacked.update {server : Server} (backed : AllBacked server) {kept : Option Conn}
    (keeps : ∀ conn, kept = some conn → Backed conn) (gMap : Map) (fd : Nat) :
    AllBacked { gMap := gMap, fd2conn := Function.update server.fd2conn fd kept } := by
  intro fd' conn found
  change Function.update server.fd2conn fd kept fd' = some conn at found
  by_cases same : fd' = fd
  · rw [same, Function.update_self] at found
    exact keeps conn found
  · rw [Function.update_of_ne same] at found
    exact backed fd' conn found

theorem step_ready {server : Server} {fd : Nat} {conn : Conn}
    (found : server.fd2conn fd = some conn) (pollin : Option ReadResult)
    (pollout : Option WriteResult) :
    step server (.ready fd pollin pollout) = do
      let s ← serveRead { gMap := server.gMap, conn := conn } pollin
      let s ← serveWrite s (if conn.wantWrite then pollout else none)
      return { gMap := s.gMap, fd2conn := Function.update server.fd2conn fd s.conn.kept } := by
  simp only [step, found, serveConn, bind_assoc]

/-- A step other than a silent one leaves all connections with something to write wherever a write
is asked for, and no write fails the assertion. -/
theorem step_backed {server : Server} {event : Event} (backed : AllBacked server)
    (audible : ¬ Silent server event) :
    step server event ≠ .error .writeAssertion ∧
      ∀ next, step server event = .ok next → AllBacked next := by
  cases event with
  | accept fd =>
    rw [step]
    split
    · refine ⟨nofun, ?_⟩
      rintro next ⟨⟩
      exact backed
    · refine ⟨nofun, ?_⟩
      rintro next ⟨⟩
      refine backed.update ?_ _ _
      rintro conn ⟨⟩ ⟨⟩
  | ready fd pollin pollout =>
    cases found : server.fd2conn fd with
    | none =>
      rw [step, found]
      refine ⟨nofun, ?_⟩
      rintro next ⟨⟩
      exact backed
    | some conn =>
      rw [step_ready found]
      cases returned : serveRead { gMap := server.gMap, conn := conn } pollin with
      | error abort =>
        rw [serveRead_error returned]
        exact ⟨nofun, nofun⟩
      | ok s =>
        have kept : Backed s.conn := (backed_serveRead_iff (backed fd conn found) returned).mpr
          fun chunk same silent => audible ⟨conn, chunk, found, same, silent⟩
        -- The write comes only where the read left something to write.
        obtain ⟨next, wrote, keeps⟩ :=
          serveWrite_backed kept (if conn.wantWrite then pollout else none)
        change (serveWrite s _ >>= _) ≠ _ ∧ ∀ _, (serveWrite s _ >>= _) = _ → _
        rw [wrote]
        refine ⟨nofun, ?_⟩
        rintro last ⟨⟩
        refine backed.update ?_ _ _
        intro conn' same
        unfold Conn.kept at same
        split at same
        · cases same
        · cases same
          exact keeps

/-- In a run no connection asks for a write with nothing to write, neither between two rounds nor
after a read, and no write fails the assertion. -/
structure WritesSomething (events : List Event) : Prop where
  between : ∀ before after server, events = before ++ after → run start before = .ok server →
    AllBacked server
  afterRead : ∀ before fd pollin pollout after server conn s,
    events = before ++ .ready fd pollin pollout :: after → run start before = .ok server →
    server.fd2conn fd = some conn →
    serveRead { gMap := server.gMap, conn := conn } pollin = .ok s → Backed s.conn
  asserted : run start events ≠ .error .writeAssertion

/-- No step of the run is a silent one. -/
def NeverSilent (events : List Event) : Prop :=
  ∀ before event after server, events = before ++ event :: after →
    run start before = .ok server → ¬ Silent server event

theorem NeverSilent.before {before after : List Event} (audible : NeverSilent (before ++ after)) :
    NeverSilent before := by
  rintro first event last server rfl ran
  exact audible first event (last ++ after) server (by simp) ran

theorem run_backed {events : List Event} {server : Server} (audible : NeverSilent events)
    (ran : run start events = .ok server) : AllBacked server := by
  refine foldlM_ok_invariant (fun events server => NeverSilent events → AllBacked server) ?_ ?_
    ran audible
  · rintro - fd conn ⟨⟩
  · intro before event reached next ran kept stepped audible
    exact (step_backed (kept audible.before) (audible before event [] reached rfl ran)).2 next
      stepped

theorem writesSomething_iff (events : List Event) :
    WritesSomething events ↔ NeverSilent events := by
  constructor
  · intro writes before event after server split ran silent
    cases event with
    | accept fd => exact silent
    | ready fd pollin pollout =>
      obtain ⟨conn, chunk, found, rfl, silent⟩ := silent
      have backed := writes.between before _ server split ran fd conn found
      -- The read returns, and leaves the connection with nothing to write.
      obtain ⟨_, _, _, -, served⟩ := handleRead_bytes
        (s := { gMap := server.gMap, conn := conn }) silent.some silent.fits
      rw [← serveRead_wanted silent.wanted] at served
      exact (backed_serveRead_iff backed served).mp
        (writes.afterRead before fd _ pollout after server conn _ split ran found served) chunk
        rfl silent
  · intro audible
    refine ⟨?_, ?_, ?_⟩
    · rintro before after server rfl ran
      exact run_backed audible.before ran
    · intro before fd pollin pollout after server conn s split ran found returned
      have backed : AllBacked server := by
        rw [split] at audible
        exact run_backed audible.before ran
      rw [backed_serveRead_iff (backed fd conn found) returned]
      rintro chunk rfl silent
      exact audible before _ after server split ran ⟨conn, chunk, found, rfl, silent⟩
    · intro aborts
      -- The run stops at the step that fails, and the steps before it keep the invariant.
      obtain ⟨before, event, after, server, split, ran, failed⟩ := foldlM_error_iff.mp aborts
      have backed : AllBacked server := by
        rw [split] at audible
        exact run_backed audible.before ran
      exact (step_backed backed (audible before event after server split ran)).1 failed

/-- Requests are answered by one frame exactly when they are well spaced, and there is something to
write in all runs in which no read takes only others. -/
theorem answers_and_writes_iff (gMap : Map) (body out : Bytes) (events : List Event) :
    (AnswersOnce gMap body out ↔ Answered body) ∧ (WritesSomething events ↔ NeverSilent events) :=
  ⟨doRequest_answersOnce_iff gMap body out, writesSomething_iff events⟩

/-- GET without a key is not answered, and with the next round the server aborts. -/
theorem get_without_key_aborts :
    ¬ AnswersOnce start.gMap (text "GET") [] ∧
      run start [.accept 4, .ready 4 (some (.bytes (framed (text "GET")))) none,
        .ready 4 none (some (.wrote 1))] = .error .writeAssertion := by
  refine ⟨?_, rfl⟩
  rw [doRequest_answersOnce_iff]
  decide

end SimpleServer
end ScuffedRedis
