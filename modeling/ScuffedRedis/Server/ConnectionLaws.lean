import ScuffedRedis.Server.Connection
import ScuffedRedis.Protocol.RoundTrip
import ScuffedRedis.Foundation.Simulation

/-!
# What the pieces of the server do

The frames of commands, writes without errors, and the loop of the command handler over
messages that have arrived.
-/
namespace ScuffedRedis

open Protocol Foundation

/-! ### Command frames -/

/-- The frame in which a client sends a command. -/
def commandFrame (args : List Bytes) : Bytes := (makeCommand args).serialize

def commandStream (commands : List (List Bytes)) : Bytes := commands.flatMap commandFrame

@[simp] theorem commandStream_nil : commandStream [] = [] := rfl

@[simp] theorem commandStream_cons (args : List Bytes) (commands : List (List Bytes)) :
    commandStream (args :: commands) = commandFrame args ++ commandStream commands := rfl

theorem commandStream_append (first second : List (List Bytes)) :
    commandStream (first ++ second) = commandStream first ++ commandStream second :=
  List.flatMap_append

/-- The body of a command's frame. -/
def argumentFrames (args : List Bytes) : Bytes :=
  args.flatMap fun arg => frame .bulkString (UInt32.ofNat arg.length) arg

theorem serializeElements_map (args : List Bytes) :
    Message.serializeElements (args.map fun arg => some (Message.makeBulkString arg)) =
      argumentFrames args := by
  induction args with
  | nil => rfl
  | cons arg args ih =>
    rw [List.map_cons, Message.serializeElements, ih]
    rfl

theorem commandFrame_eq (args : List Bytes) :
    commandFrame args = frame .array (UInt32.ofNat args.length) (argumentFrames args) := by
  rw [commandFrame, makeCommand, Message.makeArray, Message.serialize, serializeElements_map,
    List.length_map]

/-- The frame is longer than the list of arguments and than each of them. -/
theorem length_argumentFrames (args : List Bytes) :
    args.length ≤ (argumentFrames args).length ∧
      ∀ arg ∈ args, arg.length ≤ (argumentFrames args).length := by
  induction args with
  | nil => simp
  | cons arg args ih =>
    have whole : (argumentFrames (arg :: args)).length =
        5 + arg.length + (argumentFrames args).length := by
      rw [argumentFrames, List.flatMap_cons, List.length_append, length_frame]
      rfl
    rw [whole]
    refine ⟨?_, fun other member => ?_⟩
    · rw [List.length_cons]
      omega
    · rcases List.mem_cons.mp member with rfl | later
      · omega
      · have := ih.2 other later
        omega

theorem encodable_makeCommand {args : List Bytes} (short : (commandFrame args).length ≤ 2 ^ 20) :
    (makeCommand args).Encodable := by
  rw [commandFrame_eq, length_frame] at short
  obtain ⟨few, each⟩ := length_argumentFrames args
  refine .array _ ?_ ?_
  · rw [List.length_map]
    omega
  · intro elem member
    obtain ⟨arg, listed, wrapped⟩ := List.mem_map.mp member
    cases wrapped
    have := each arg listed
    exact .bulkString arg (by omega)

theorem readBackElements_map (args : List Bytes) :
    Message.readBackElements (args.map fun arg => some (Message.makeBulkString arg)) =
      args.map Message.makeBulkString := by
  induction args with
  | nil => rfl
  | cons arg args ih =>
    rw [List.map_cons, Message.readBackElements, ih]
    rfl

theorem readBack_makeCommand (args : List Bytes) :
    (makeCommand args).readBack = makeCommand args := by
  rw [makeCommand, Message.makeArray, Message.readBack, readBackElements_map, List.map_map]
  rfl

theorem commandStrings_bulkStrings (args : List Bytes) :
    commandStrings (args.map fun arg => some (Message.makeBulkString arg)) = some args := by
  induction args with
  | nil => rfl
  | cons arg args ih =>
    have first : commandStrings ((arg :: args).map fun arg => some (Message.makeBulkString arg)) =
        (commandStrings (args.map fun arg => some (Message.makeBulkString arg))).map
          (arg :: ·) := rfl
    rw [first, ih]
    rfl

theorem parseCommand_makeCommand (args : List Bytes) : parseCommand (makeCommand args) = args := by
  change (commandStrings (args.map fun arg => some (Message.makeBulkString arg))).getD [] = args
  rw [commandStrings_bulkStrings, Option.getD_some]

/-- A command's frame is taken off the front of the buffer as the command. -/
theorem takes_commandFrame {args : List Bytes} (short : (commandFrame args).length ≤ 2 ^ 20)
    (rest : Bytes) : Takes (commandFrame args ++ rest) [makeCommand args] rest := by
  have takes := takes_serialize (encodable_makeCommand short) rest
  rwa [readBack_makeCommand] at takes

theorem readHeader_commandFrame (args : List Bytes) (rest : Bytes) :
    Parser.readHeader (commandFrame args ++ rest) =
      some (MessageType.array.toByte, UInt32.ofNat args.length) := by
  rw [commandFrame_eq]
  exact readHeader_frame _ _ _ _

theorem five_le_commandFrame (args : List Bytes) : 5 ≤ (commandFrame args).length := by
  rw [commandFrame_eq, length_frame]
  omega

theorem hasMessage_array {buffer : Bytes} {count : UInt32}
    (header : Parser.readHeader buffer = some (MessageType.array.toByte, count)) :
    Parser.hasMessage buffer = true := by
  rw [Parser.hasMessage, header]
  rfl

/-- A buffer without a whole header holds no message. -/
theorem hasMessage_short {buffer : Bytes} (short : buffer.length ≤ 4) :
    Parser.hasMessage buffer = false := by
  cases header : Parser.readHeader buffer with
  | none => rw [Parser.hasMessage, header]
  | some fields =>
    have := readHeader_some header
    omega

/-! ### Answers -/

/-- A command of the client, executed. -/
def execute (kv : KVStore) (args : List Bytes) : Message × KVStore :=
  kv.executeCommand (makeCommand args)

/-- The bytes of the answers to commands that are executed one after another. -/
def answers (kv : KVStore) (commands : List (List Bytes)) : Bytes :=
  (runInputs execute kv commands).1.flatMap Message.serialize

/-- The store after them. -/
def storeAfter (kv : KVStore) (commands : List (List Bytes)) : KVStore :=
  (runInputs execute kv commands).2

@[simp] theorem answers_nil (kv : KVStore) : answers kv [] = [] := rfl

@[simp] theorem storeAfter_nil (kv : KVStore) : storeAfter kv [] = kv := rfl

theorem answers_cons (kv : KVStore) (args : List Bytes) (commands : List (List Bytes)) :
    answers kv (args :: commands) =
      (execute kv args).1.serialize ++ answers (execute kv args).2 commands := rfl

theorem storeAfter_cons (kv : KVStore) (args : List Bytes) (commands : List (List Bytes)) :
    storeAfter kv (args :: commands) = storeAfter (execute kv args).2 commands := rfl

theorem answers_append (kv : KVStore) (first second : List (List Bytes)) :
    answers kv (first ++ second) = answers kv first ++ answers (storeAfter kv first) second := by
  rw [answers, runInputs_append, List.flatMap_append]
  rfl

theorem storeAfter_append (kv : KVStore) (first second : List (List Bytes)) :
    storeAfter kv (first ++ second) = storeAfter (storeAfter kv first) second := by
  rw [storeAfter, runInputs_append]
  rfl

theorem serialize_head (msg : Message) : msg.serialize.head? = some msg.getType.toByte := by
  have flat : ∀ msg : Message, msg.serializeFlat.head? = some msg.getType.toByte := by
    intro msg
    unfold Message.serializeFlat
    split <;> simp_all [frame]
  unfold Message.serialize
  split
  · rfl
  · exact flat _

theorem serialize_ne_nil (msg : Message) : msg.serialize ≠ [] := by
  intro empty
  have head := serialize_head msg
  rw [empty] at head
  cases head

/-! ### Writes -/

section Write

variable {client : ClientConnection}

/-- Without errors everything is sent, in however many pieces. -/
theorem sendAll_success (client : ClientConnection) {script : List SendResult}
    (noError : .error ∉ script) (data : Bytes) :
    ∃ later, .error ∉ later ∧ later.length ≤ script.length ∧
      client.sendAll script data =
        (true, { client with sends := later, sent := client.sent ++ data }) := by
  -- Each result of `send` takes some bytes; the call goes on with those that are left.
  induction script generalizing client data with
  | nil =>
    cases data with
    | nil => exact ⟨[], List.not_mem_nil, le_refl _, by simp [ClientConnection.sendAll]⟩
    | cons byte data => exact ⟨[], List.not_mem_nil, le_refl _, rfl⟩
  | cons result script ih =>
    cases data with
    | nil => exact ⟨_, noError, le_refl _, by simp [ClientConnection.sendAll]⟩
    | cons byte data =>
      rw [List.mem_cons, not_or] at noError
      cases result with
      | error => exact absurd rfl noError.1
      | accepted count =>
        obtain ⟨later, clean, shorter, sent⟩ :=
          ih { client with sent := client.sent ++ (byte :: data).take count } noError.2
            ((byte :: data).drop count)
        refine ⟨later, clean, shorter.trans (Nat.le_succ _), ?_⟩
        rw [ClientConnection.sendAll, sent, List.append_assoc, List.take_append_drop]
        exact List.cons_ne_nil byte data

theorem write_success (connected : client.closed = false) (noError : .error ∉ client.sends)
    {data : Bytes} (nonempty : data ≠ []) :
    ∃ later, .error ∉ later ∧ later.length ≤ client.sends.length ∧
      client.write data = (true, { client with sends := later, sent := client.sent ++ data }) := by
  have writes : ¬ (client.closed = true ∨ data.length = 0) := by
    rw [connected, List.length_eq_zero_iff]
    simp [nonempty]
  rw [ClientConnection.write, if_neg writes]
  exact sendAll_success client noError data

end Write

/-! ### The loop of the handler -/

namespace CommandHandler

section Loop

variable {handler : CommandHandler} {client : ClientConnection} {fuel messages : Nat}

theorem processLoop_stop (nothing : Parser.hasMessage handler.parser = false) :
    processLoop (fuel + 1) messages handler client =
      .returned ⟨true, messages, handler, client⟩ := by
  rw [processLoop, nothing, if_neg Bool.false_ne_true]

theorem processLoop_incomplete {rest : Bytes} (present : Parser.hasMessage handler.parser = true)
    (parsed : Parser.parseMessage handler.parser = (.nullptr, rest)) :
    processLoop (fuel + 1) messages handler client =
      .returned ⟨true, messages, { handler with parser := rest }, client⟩ := by
  rw [processLoop, if_pos present, parsed]

/-- One iteration over a message goes the way of the write of its answer. -/
theorem processLoop_request {request : Message} {rest : Bytes}
    (present : Parser.hasMessage handler.parser = true)
    (parsed : Parser.parseMessage handler.parser = (.message request, rest)) :
    processLoop (fuel + 1) messages handler client =
      match client.write (handler.store.executeCommand request).1.serialize with
      | (true, other) =>
        processLoop fuel (messages + 1) ⟨rest, (handler.store.executeCommand request).2⟩ other
      | (false, other) =>
        .returned ⟨false, messages, ⟨rest, (handler.store.executeCommand request).2⟩, other⟩ := by
  rw [processLoop, if_pos present, parsed]
  change (if (client.write (handler.store.executeCommand request).1.serialize).1 = true then
      processLoop fuel (messages + 1) ⟨rest, (handler.store.executeCommand request).2⟩
        (client.write (handler.store.executeCommand request).1.serialize).2
    else .returned ⟨false, messages, ⟨rest, (handler.store.executeCommand request).2⟩,
      (client.write (handler.store.executeCommand request).1.serialize).2⟩) = _
  rcases client.write (handler.store.executeCommand request).1.serialize with ⟨_ | _, other⟩ <;> rfl

/-- One message is answered and counted. -/
theorem processLoop_message (fuel messages : Nat) (handler : CommandHandler)
    (client : ClientConnection) {request : Message} {rest : Bytes}
    (present : Parser.hasMessage handler.parser = true)
    (parsed : Parser.parseMessage handler.parser = (.message request, rest))
    (connected : client.closed = false) (noError : .error ∉ client.sends) :
    ∃ later, .error ∉ later ∧ later.length ≤ client.sends.length ∧
      processLoop (fuel + 1) messages handler client =
        processLoop fuel (messages + 1)
          ⟨rest, (handler.store.executeCommand request).2⟩
          { client with
            sends := later
            sent := client.sent ++ (handler.store.executeCommand request).1.serialize } := by
  obtain ⟨later, clean, shorter, written⟩ := write_success connected noError
    (serialize_ne_nil (handler.store.executeCommand request).1)
  refine ⟨later, clean, shorter, ?_⟩
  rw [processLoop_request present parsed, written]

/-- Commands that have arrived in full are answered one after another. -/
theorem processLoop_commands (fuel messages : Nat) (commands : List (List Bytes)) (tail : Bytes)
    (kv : KVStore) (client : ClientConnection)
    (short : ∀ args ∈ commands, (commandFrame args).length ≤ 2 ^ 20)
    (connected : client.closed = false) (noError : .error ∉ client.sends) :
    ∃ later, .error ∉ later ∧
      processLoop (fuel + commands.length) messages ⟨commandStream commands ++ tail, kv⟩ client =
        processLoop fuel (messages + commands.length) ⟨tail, storeAfter kv commands⟩
          { client with sends := later, sent := client.sent ++ answers kv commands } := by
  induction commands generalizing kv client messages with
  | nil => exact ⟨client.sends, noError, by simp⟩
  | cons args commands ih =>
    rw [List.forall_mem_cons] at short
    -- The first command is answered and taken off, and the loop meets the others.
    have front : commandStream (args :: commands) ++ tail =
        commandFrame args ++ (commandStream commands ++ tail) := by
      rw [commandStream_cons, List.append_assoc]
    obtain ⟨sends, clean, -, step⟩ := processLoop_message (fuel + commands.length) messages
      ⟨commandFrame args ++ (commandStream commands ++ tail), kv⟩ client
      (hasMessage_array (readHeader_commandFrame args _))
      (Parser.parseMessage_of_takes (takes_commandFrame short.1 _)) connected noError
    obtain ⟨later, clean', rest⟩ := ih (messages + 1)
      (kv.executeCommand (makeCommand args)).2
      { client with
        sends := sends
        sent := client.sent ++ (kv.executeCommand (makeCommand args)).1.serialize }
      short.2 connected clean
    refine ⟨later, clean', ?_⟩
    rw [front, List.length_cons, ← Nat.add_assoc, step, rest, answers_cons, storeAfter_cons,
      List.append_assoc, Nat.add_assoc messages, Nat.add_comm 1]
    rfl

end Loop

end CommandHandler

/-! ### Reads -/

/-- The connection after a read of some bytes. -/
def ClientConnection.withChunk (client : ClientConnection) (chunk : Bytes) : ClientConnection :=
  { client with
    readBuffer := client.readBuffer ++ chunk
    received := client.received ++ chunk }

/-- The bytes of a read are put in the buffer, or the read fails and its result is not
positive. -/
theorem read_cases (client : ClientConnection) (chunk : Bytes) :
    (client.read chunk).1 ≤ 0 ∨
      (client.closed = false ∧ chunk ≠ [] ∧
        client.read chunk = ((chunk.length : Int), client.withChunk chunk)) := by
  have failed : (-1 : Int) ≤ 0 := by decide
  rw [ClientConnection.read]
  split
  next => exact .inl failed
  next connected =>
    split
    next longer =>
      split
      next => exact .inl failed
      next =>
        exact .inr ⟨Bool.eq_false_of_not_eq_true connected, List.ne_nil_of_length_pos longer, rfl⟩
    next => exact .inl (le_refl _)

theorem read_fits {client : ClientConnection} {chunk : Bytes} (connected : client.closed = false)
    (nonempty : chunk ≠ [])
    (fits : client.readBuffer.length + chunk.length ≤ ClientConnection.maxBufferSize) :
    client.read chunk = ((chunk.length : Int), client.withChunk chunk) := by
  rw [ClientConnection.read, if_neg (by simp [connected]),
    if_pos (List.length_pos_iff.mpr nonempty), if_neg (Nat.not_lt.mpr fits)]
  rfl

/-! ### Calls of the handler -/

namespace CommandHandler

/-- The loop of a call, which starts with the whole read buffer fed to the parser. -/
def processFed (handler : CommandHandler) (client : ClientConnection) : Handled Processed :=
  processLoop
    (loopFuel { handler with parser := handler.parser ++ client.readBuffer }
      { client with fed := client.fed ++ client.readBuffer })
    0 { handler with parser := handler.parser ++ client.readBuffer }
    { client with fed := client.fed ++ client.readBuffer }

/-- The read buffer is cleared when a message was processed. -/
def Processed.consumed (processed : Processed) : ClientConnection :=
  if processed.messagesProcessed > 0 then { processed.client with readBuffer := [] }
  else processed.client

theorem handleClient_eq {handler : CommandHandler} {client : ClientConnection}
    (nonempty : client.readBuffer ≠ []) :
    handler.handleClient client =
      match processFed handler client with
      | .returned processed =>
        .returned (processed.connectionOk, processed.handler, processed.consumed)
      | .overrun => .overrun
      | .endless => .endless := by
  have whole : ∀ client : ClientConnection,
      client.consumeBytes client.readBuffer.length = { client with readBuffer := [] } :=
    fun client => if_pos (le_refl _)
  rw [handleClient, if_neg nonempty]
  simp only [whole]
  rfl

theorem handleClient_returned_iff {handler : CommandHandler} {client : ClientConnection}
    (nonempty : client.readBuffer ≠ []) {result : Bool × CommandHandler × ClientConnection} :
    handler.handleClient client = .returned result ↔
      ∃ processed, processFed handler client = .returned processed ∧
        result = (processed.connectionOk, processed.handler, processed.consumed) := by
  rw [handleClient_eq nonempty]
  cases processFed handler client with
  | returned processed =>
    constructor
    · intro same
      cases same
      exact ⟨processed, rfl, rfl⟩
    · rintro ⟨_, same, rfl⟩
      cases same
      rfl
  | overrun => simp
  | endless => simp

end CommandHandler

/-! ### Rounds -/

/-- One read and one call of the handler, when both go well and the connection stays. -/
def round (state : CommandHandler × ClientConnection) (chunk : Bytes) :
    Option (CommandHandler × ClientConnection) :=
  let (bytesRead, client) := state.2.read chunk
  if bytesRead ≤ 0 then none
  else
    match state.1.handleClient client with
    | .returned (true, handler, client) => some (handler, client)
    | _ => none

def rounds (state : CommandHandler × ClientConnection) (chunks : List Bytes) :
    Option (CommandHandler × ClientConnection) :=
  chunks.foldlM round state

/-- The result of a read that put some bytes in the buffer. -/
theorem not_length_nonpos {chunk : Bytes} (nonempty : chunk ≠ []) : ¬ (chunk.length : Int) ≤ 0 := by
  have := List.length_pos_iff.mpr nonempty
  omega

theorem round_of_handled {handler handler' : CommandHandler} {client client' : ClientConnection}
    {chunk : Bytes} (connected : client.closed = false) (nonempty : chunk ≠ [])
    (fits : client.readBuffer.length + chunk.length ≤ ClientConnection.maxBufferSize)
    (handled :
      handler.handleClient (client.withChunk chunk) = .returned (true, handler', client')) :
    round (handler, client) chunk = some (handler', client') := by
  rw [round]
  simp only [read_fits connected nonempty fits, if_neg (not_length_nonpos nonempty), handled]

/-- A round reads some bytes, and the handler keeps the connection. -/
theorem round_inv {handler handler' : CommandHandler} {client client' : ClientConnection}
    {chunk : Bytes} (ran : round (handler, client) chunk = some (handler', client')) :
    client.closed = false ∧ chunk ≠ [] ∧
      client.read chunk = ((chunk.length : Int), client.withChunk chunk) ∧
      handler.handleClient (client.withChunk chunk) = .returned (true, handler', client') := by
  rw [round] at ran
  rcases read_cases client chunk with failed | ⟨connected, nonempty, read⟩
  · simp only [if_pos failed] at ran
    cases ran
  · refine ⟨connected, nonempty, read, ?_⟩
    simp only [read, if_neg (not_length_nonpos nonempty)] at ran
    split at ran
    next handled =>
      cases ran
      exact handled
    next => cases ran

theorem rounds_cons {state next : CommandHandler × ClientConnection} {chunk : Bytes}
    (first : round state chunk = some next) (chunks : List Bytes) :
    rounds state (chunk :: chunks) = rounds next chunks := by
  rw [rounds, List.foldlM_cons, first]
  rfl

theorem rounds_cons_inv {state last : CommandHandler × ClientConnection} {chunk : Bytes}
    {chunks : List Bytes} (ran : rounds state (chunk :: chunks) = some last) :
    ∃ next, round state chunk = some next ∧ rounds next chunks = some last := by
  rw [rounds, List.foldlM_cons, Option.bind_eq_bind, Option.bind_eq_some_iff] at ran
  exact ran

/-- The server's loop goes through the rounds and then closes the connection. -/
theorem handleClient_of_rounds {handler handler' : CommandHandler}
    {client client' : ClientConnection} {chunks : List Bytes}
    (ran : rounds (handler, client) chunks = some (handler', client')) :
    TcpServer.handleClient chunks handler client = .returned (handler', client'.close) := by
  induction chunks generalizing handler client with
  | nil =>
    cases ran
    rfl
  | cons chunk chunks ih =>
    obtain ⟨⟨next, connection⟩, first, rest⟩ := rounds_cons_inv ran
    obtain ⟨connected, nonempty, read, handled⟩ := round_inv first
    rw [TcpServer.handleClient, if_neg (by simp [connected]), read]
    simp only [if_neg (not_length_nonpos nonempty), handled]
    exact ih rest

end ScuffedRedis
