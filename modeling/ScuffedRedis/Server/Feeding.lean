import ScuffedRedis.Server.ConnectionLaws

/-!
# Which bytes the parser is fed

Every call of the handler feeds the whole read buffer. The buffer is cleared only by a call
that answers a message, so the bytes of any other call are fed again by the next one.
-/
namespace ScuffedRedis

open Protocol

/-- A message can be taken from the front of the buffer, and `has_message` says so. -/
def Completes (buffer : Bytes) : Prop :=
  Parser.hasMessage buffer = true ∧
    ∃ request rest, Parser.parseMessage buffer = (.message request, rest)

/-! ### What writing leaves alone -/

/-- Nothing was read or fed, and the read buffer only goes when the connection is closed. -/
structure Untouched (client other : ClientConnection) (success : Bool) : Prop where
  fed : other.fed = client.fed
  received : other.received = client.received
  readBuffer : success = true → other.readBuffer = client.readBuffer

theorem close_untouched (client : ClientConnection) : Untouched client client.close false := by
  rw [ClientConnection.close]
  split
  · exact ⟨rfl, rfl, fun success => absurd success Bool.false_ne_true⟩
  · exact ⟨rfl, rfl, fun success => absurd success Bool.false_ne_true⟩

theorem sendAll_untouched (client : ClientConnection) (script : List SendResult) (data : Bytes) :
    Untouched client (client.sendAll script data).2 (client.sendAll script data).1 := by
  induction script generalizing client data with
  | nil => cases data <;> exact ⟨rfl, rfl, fun _ => rfl⟩
  | cons result script ih =>
    cases data with
    | nil => exact ⟨rfl, rfl, fun _ => rfl⟩
    | cons byte data =>
      cases result with
      | accepted count =>
        have later := ih { client with sent := client.sent ++ (byte :: data).take count }
          ((byte :: data).drop count)
        exact ⟨later.fed, later.received, later.readBuffer⟩
      -- A failed `send` closes the connection, which may clear the read buffer.
      | error =>
        have closed := close_untouched { client with sends := script }
        exact ⟨closed.fed, closed.received, closed.readBuffer⟩

theorem write_untouched (client : ClientConnection) (data : Bytes) :
    Untouched client (client.write data).2 (client.write data).1 := by
  rw [ClientConnection.write]
  split
  · exact ⟨rfl, rfl, fun _ => rfl⟩
  · exact sendAll_untouched _ _ _

namespace CommandHandler

/-- The loop answers a message exactly when one can be taken at its start. -/
theorem processLoop_counts {fuel messages : Nat} {handler : CommandHandler}
    {client : ClientConnection} {processed : Processed}
    (ran : processLoop fuel messages handler client = .returned processed) :
    Untouched client processed.client processed.connectionOk ∧
      messages ≤ processed.messagesProcessed ∧
      (processed.connectionOk = true →
        (messages < processed.messagesProcessed ↔ Completes handler.parser)) := by
  induction fuel generalizing messages handler client with
  | zero => cases ran
  | succ fuel ih =>
    -- The three ways out of an iteration: no header, no whole message, or a failed write.
    have idle : ∀ {other : Processed}, other.messagesProcessed = messages →
        ¬ Completes handler.parser →
        (messages < other.messagesProcessed ↔ Completes handler.parser) := by
      intro other same incomplete
      rw [same]
      exact ⟨fun less => absurd less (lt_irrefl _), fun completes => absurd completes incomplete⟩
    cases present : Parser.hasMessage handler.parser with
    | false =>
      rw [processLoop_stop present] at ran
      cases ran
      have incomplete : ¬ Completes handler.parser := fun completes =>
        Bool.false_ne_true (present.symm.trans completes.1)
      exact ⟨⟨rfl, rfl, fun _ => rfl⟩, le_refl _, fun _ => idle rfl incomplete⟩
    | true =>
      rcases parsed : Parser.parseMessage handler.parser with ⟨request | _ | _, rest⟩
      · rw [processLoop_request present parsed] at ran
        have written := write_untouched client
          (handler.store.executeCommand request).1.serialize
        generalize client.write (handler.store.executeCommand request).1.serialize = outcome
          at ran written
        rcases outcome with ⟨_ | _, other⟩
        · cases ran
          exact ⟨written, le_refl _, fun ok => absurd ok Bool.false_ne_true⟩
        · obtain ⟨later, counted, -⟩ := ih ran
          refine ⟨⟨later.fed.trans written.fed, later.received.trans written.received,
            fun ok => (later.readBuffer ok).trans (written.readBuffer rfl)⟩, by omega, fun _ => ?_⟩
          exact ⟨fun _ => ⟨present, request, rest, parsed⟩, fun _ => by omega⟩
      · rw [processLoop_incomplete present parsed] at ran
        cases ran
        have incomplete : ¬ Completes handler.parser := by
          rintro ⟨-, request, other, taken⟩
          rw [parsed] at taken
          cases taken
        exact ⟨⟨rfl, rfl, fun _ => rfl⟩, le_refl _, fun _ => idle rfl incomplete⟩
      · rw [processLoop, if_pos present, parsed] at ran
        cases ran

end CommandHandler

/-! ### Rounds -/

/-- What a round does to the bytes of its connection. -/
structure RoundBytes (handler : CommandHandler) (client client' : ClientConnection)
    (chunk : Bytes) : Prop where
  nonempty : chunk ≠ []
  received : client'.received = client.received ++ chunk
  fed : client'.fed = client.fed ++ (client.readBuffer ++ chunk)
  cleared : Completes (handler.parser ++ (client.readBuffer ++ chunk)) → client'.readBuffer = []
  kept : ¬ Completes (handler.parser ++ (client.readBuffer ++ chunk)) →
    client'.readBuffer = client.readBuffer ++ chunk

theorem round_bytes {handler handler' : CommandHandler} {client client' : ClientConnection}
    {chunk : Bytes} (ran : round (handler, client) chunk = some (handler', client')) :
    RoundBytes handler client client' chunk := by
  obtain ⟨-, nonempty, -, handled⟩ := round_inv ran
  have buffered : (client.withChunk chunk).readBuffer ≠ [] := by
    simp [ClientConnection.withChunk, nonempty]
  obtain ⟨processed, looped, result⟩ :=
    (CommandHandler.handleClient_returned_iff buffered).mp handled
  obtain ⟨untouched, -, counts⟩ := CommandHandler.processLoop_counts looped
  simp only [Prod.mk.injEq] at result
  obtain ⟨ok, -, rfl⟩ := result
  have counted := counts ok.symm
  -- The read buffer is cleared when the loop counted a message.
  rw [CommandHandler.Processed.consumed]
  constructor
  · exact nonempty
  · split <;> exact untouched.received
  · split <;> exact untouched.fed
  · intro completes
    rw [if_pos (counted.mpr completes)]
  · intro incomplete
    rw [if_neg (mt counted.mp incomplete)]
    exact untouched.readBuffer ok.symm

/-- Every call that another one follows finds a message at the front of the parser's buffer,
once it has fed the read buffer to it. -/
def AnswersBetween (state : CommandHandler × ClientConnection) (chunks : List Bytes) : Prop :=
  ∀ before chunk next after, chunks = before ++ chunk :: next :: after →
    ∃ handler client, rounds state before = some (handler, client) ∧
      Completes (handler.parser ++ (client.readBuffer ++ chunk))

section Rounds

variable {handler handler' : CommandHandler} {client client' : ClientConnection}

theorem rounds_received {chunks : List Bytes}
    (ran : rounds (handler, client) chunks = some (handler', client')) :
    client'.received = client.received ++ chunks.flatten := by
  induction chunks generalizing handler client with
  | nil =>
    cases ran
    exact (List.append_nil _).symm
  | cons chunk chunks ih =>
    obtain ⟨⟨next, connection⟩, first, rest⟩ := rounds_cons_inv ran
    rw [ih rest, (round_bytes first).received, List.flatten_cons, List.append_assoc]

/-- What is in the read buffer before a read is fed by the next call. -/
theorem rounds_fed_length {chunks : List Bytes}
    (ran : rounds (handler, client) chunks = some (handler', client')) :
    client.fed.length + chunks.flatten.length +
      (if chunks = [] then 0 else client.readBuffer.length) ≤ client'.fed.length := by
  induction chunks generalizing handler client with
  | nil =>
    cases ran
    simp
  | cons chunk chunks ih =>
    obtain ⟨⟨next, connection⟩, first, rest⟩ := rounds_cons_inv ran
    have bytes := congrArg List.length (round_bytes first).fed
    have later := ih rest
    rw [List.length_append, List.length_append] at bytes
    rw [List.flatten_cons, List.length_append, if_neg (List.cons_ne_nil _ _)]
    omega

theorem answersBetween_cons {next : CommandHandler × ClientConnection} {chunk second : Bytes}
    (first : round (handler, client) chunk = some next) (chunks : List Bytes) :
    AnswersBetween (handler, client) (chunk :: second :: chunks) ↔
      Completes (handler.parser ++ (client.readBuffer ++ chunk)) ∧
        AnswersBetween next (second :: chunks) := by
  constructor
  · intro between
    refine ⟨?_, fun before later follower after split => ?_⟩
    · obtain ⟨_, _, reached, completes⟩ := between [] chunk second chunks rfl
      cases reached
      exact completes
    · obtain ⟨handler, client, reached, completes⟩ :=
        between (chunk :: before) later follower after (by rw [split, List.cons_append])
      rw [rounds_cons first] at reached
      exact ⟨handler, client, reached, completes⟩
  · rintro ⟨completes, between⟩ before later follower after split
    cases before with
    | nil =>
      cases split
      exact ⟨handler, client, rfl, completes⟩
    | cons head before =>
      rw [List.cons_append, List.cons.injEq] at split
      obtain ⟨rfl, split⟩ := split
      rw [rounds_cons first]
      exact between before later follower after split

/-- From a cleared read buffer, no byte is fed twice exactly when there are answers in between. -/
theorem rounds_fed_iff {chunks : List Bytes} (cleared : client.readBuffer = [])
    (ran : rounds (handler, client) chunks = some (handler', client')) :
    client'.fed = client.fed ++ chunks.flatten ↔ AnswersBetween (handler, client) chunks := by
  induction chunks generalizing handler client with
  | nil =>
    cases ran
    simp [AnswersBetween]
  | cons chunk chunks ih =>
    obtain ⟨⟨next, connection⟩, first, rest⟩ := rounds_cons_inv ran
    have bytes := round_bytes first
    have fed := bytes.fed
    rw [cleared, List.nil_append] at fed
    cases chunks with
    | nil =>
      cases rest
      rw [fed]
      constructor
      -- After one call there is none in between.
      · intro _ before later follower after split
        have count := congrArg List.length split
        simp only [List.length_append, List.length_cons, List.length_nil] at count
        omega
      · intro _
        rw [List.flatten_cons, List.flatten_nil, List.append_nil]
    | cons second chunks =>
      rw [answersBetween_cons first]
      by_cases completes : Completes (handler.parser ++ (client.readBuffer ++ chunk))
      · rw [← ih (bytes.cleared completes) rest, fed, List.flatten_cons (l := chunk),
          List.append_assoc]
        exact ⟨fun same => ⟨completes, same⟩, And.right⟩
      · constructor
        · intro same
          -- The read buffer was not cleared, so its bytes are fed once more.
          have longer := rounds_fed_length rest
          have positive := List.length_pos_iff.mpr bytes.nonempty
          rw [bytes.kept completes, cleared, same, fed, List.nil_append,
            if_neg (List.cons_ne_nil _ _), List.flatten_cons (l := chunk)] at longer
          simp only [List.length_append] at longer
          omega
        · intro between
          exact absurd between.1 completes

/-- **When each byte is fed once.** Over any run of rounds of a new connection, on any
handler, the bytes fed to the parser are the bytes read exactly when every call but the last
finds a message to answer. -/
theorem fed_eq_received_iff (sends : List SendResult) (chunks : List Bytes)
    (ran : rounds (handler, .accept sends) chunks = some (handler', client')) :
    client'.received = chunks.flatten ∧
      (client'.fed = client'.received ↔
        AnswersBetween (handler, .accept sends) chunks) := by
  have received := rounds_received ran
  refine ⟨received, ?_⟩
  rw [received]
  exact rounds_fed_iff rfl ran

end Rounds

/-- A frame, and then a frame in two reads. -/
theorem fed_eq_received_iff_cut :
    ∃ handler client,
      rounds (⟨[], KVStore.initial⟩, .accept []) [commandFrame [text "PING"],
          (commandFrame [text "PING"]).take 5, (commandFrame [text "PING"]).drop 5] =
          some (handler, client) ∧
        client.received = [commandFrame [text "PING"], (commandFrame [text "PING"]).take 5,
          (commandFrame [text "PING"]).drop 5].flatten ∧
        (client.fed = client.received ↔
          AnswersBetween (⟨[], KVStore.initial⟩, .accept []) [commandFrame [text "PING"],
            (commandFrame [text "PING"]).take 5, (commandFrame [text "PING"]).drop 5]) :=
  ⟨_, _, rfl, fed_eq_received_iff [] [commandFrame [text "PING"],
    (commandFrame [text "PING"]).take 5, (commandFrame [text "PING"]).drop 5] rfl⟩

/-- The first byte of a frame arrives alone: it is fed again with the rest of the frame. -/
theorem cut_frame_fed_twice :
    ∃ handler client,
      rounds (⟨[], KVStore.initial⟩, .accept [])
          [(commandFrame [text "PING"]).take 1, (commandFrame [text "PING"]).drop 1] =
        some (handler, client) ∧
      client.fed ≠ client.received :=
  ⟨_, _, rfl, by decide⟩

end ScuffedRedis
