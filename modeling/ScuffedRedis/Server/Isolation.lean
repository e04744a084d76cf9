import ScuffedRedis.Server.ConnectionLaws
import ScuffedRedis.Server.KvRefinement

/-!
# What one connection leaves to the next

All connections go through one handler with one parser. Its buffer survives the connection that
filled it, and the next client's bytes are appended to whatever is left there. That client is
served as by a fresh handler exactly when nothing is left.
-/
namespace ScuffedRedis

open Protocol

/-- What a client gets, whatever becomes of the handler. -/
def bytesTo (handler : CommandHandler) (session : TcpServer.Session) : Handled Bytes :=
  match TcpServer.serve handler session with
  | .returned (sent, _) => .returned sent
  | .overrun => .overrun
  | .endless => .endless

/-! ### The first answer -/

section Sent

variable (client : ClientConnection)

theorem close_sent : client.close.sent = client.sent := by
  rw [ClientConnection.close]
  split <;> rfl

/-- Writing adds to what was sent. -/
theorem sendAll_sent (script : List SendResult) (data : Bytes) :
    client.sent <+: (client.sendAll script data).2.sent := by
  induction script generalizing client data with
  | nil => cases data <;> simp [ClientConnection.sendAll]
  | cons result script ih =>
    cases data with
    | nil => simp [ClientConnection.sendAll]
    | cons byte data =>
      -- An accepted part is sent for good, and an error sends nothing.
      cases result with
      | accepted count =>
        have later := ih { client with sent := client.sent ++ (byte :: data).take count }
          ((byte :: data).drop count)
        exact (List.prefix_append _ _).trans later
      | error =>
        have same := close_sent { client with sends := script }
        rw [ClientConnection.sendAll, same]
        exact List.cons_ne_nil byte data

theorem write_sent (data : Bytes) : client.sent <+: (client.write data).2.sent := by
  rw [ClientConnection.write]
  split
  · exact List.prefix_refl _
  · exact sendAll_sent client _ _

end Sent

namespace CommandHandler

variable {fuel messages : Nat} {handler : CommandHandler} {client : ClientConnection}
  {processed : Processed}

theorem processLoop_sent (ran : processLoop fuel messages handler client = .returned processed) :
    client.sent <+: processed.client.sent := by
  induction fuel generalizing messages handler client with
  | zero => cases ran
  | succ fuel ih =>
    cases present : Parser.hasMessage handler.parser with
    | false =>
      rw [processLoop_stop present] at ran
      cases ran
      exact List.prefix_refl _
    | true =>
      rcases parsed : Parser.parseMessage handler.parser with ⟨request | _ | _, rest⟩
      · rw [processLoop_request present parsed] at ran
        have written := write_sent client (handler.store.executeCommand request).1.serialize
        generalize client.write (handler.store.executeCommand request).1.serialize = outcome
          at ran written
        -- The loop ends when the write fails, and otherwise goes on.
        rcases outcome with ⟨_ | _, other⟩
        · cases ran
          exact written
        · exact written.trans (ih ran)
      · rw [processLoop_incomplete present parsed] at ran
        cases ran
        exact List.prefix_refl _
      · rw [processLoop, if_pos present, parsed] at ran
        cases ran

/-- When anything is sent, the first answer is that to the message at the front of the buffer. -/
theorem processLoop_first (ran : processLoop fuel messages handler client = .returned processed)
    (connected : client.closed = false) (noError : .error ∉ client.sends)
    (answered : processed.client.sent ≠ client.sent) :
    ∃ request rest, Takes handler.parser [request] rest ∧
      client.sent ++ (handler.store.executeCommand request).1.serialize <+:
        processed.client.sent := by
  cases fuel with
  | zero => cases ran
  | succ fuel =>
    cases present : Parser.hasMessage handler.parser with
    | false =>
      rw [processLoop_stop present] at ran
      cases ran
      exact absurd rfl answered
    | true =>
      rcases parsed : Parser.parseMessage handler.parser with ⟨request | _ | _, rest⟩
      · obtain ⟨later, -, -, step⟩ := processLoop_message fuel messages _ _ present
          parsed connected noError
        -- Whatever is sent later comes after this answer.
        rw [step] at ran
        exact ⟨request, rest, Parser.takes_of_parseMessage parsed, processLoop_sent ran⟩
      · rw [processLoop_incomplete present parsed] at ran
        cases ran
        exact absurd rfl answered
      · rw [processLoop, if_pos present, parsed] at ran
        cases ran

end CommandHandler

/-! ### A client that sends one chunk -/

section OneChunk

variable {handler : CommandHandler} {chunk sent : Bytes}

/-- The connection when the handler is called. -/
def oneChunk (chunk : Bytes) : ClientConnection := (ClientConnection.accept []).withChunk chunk

theorem bytesTo_oneChunk (nonempty : chunk ≠ [])
    (fits : chunk.length ≤ ClientConnection.maxBufferSize) :
    bytesTo handler ⟨[chunk], []⟩ =
      match CommandHandler.processFed handler (oneChunk chunk) with
      | .returned processed => .returned processed.client.sent
      | .overrun => .overrun
      | .endless => .endless := by
  -- One read succeeds, the handler is called once, and there is nothing more to read.
  have read : (ClientConnection.accept []).read chunk = ((chunk.length : Int), oneChunk chunk) :=
    read_fits rfl nonempty (by simpa [ClientConnection.accept] using fits)
  have buffered : (oneChunk chunk).readBuffer ≠ [] := nonempty
  have kept : ∀ processed : CommandHandler.Processed,
      processed.consumed.close.sent = processed.client.sent := by
    intro processed
    rw [close_sent, CommandHandler.Processed.consumed]
    split <;> rfl
  have call : TcpServer.handleClient [chunk] handler (ClientConnection.accept []) =
      match CommandHandler.processFed handler (oneChunk chunk) with
      | .returned processed => .returned (processed.handler, processed.consumed.close)
      | .overrun => .overrun
      | .endless => .endless := by
    rw [TcpServer.handleClient, if_neg (by simp [ClientConnection.accept]), read]
    simp only [if_neg (not_length_nonpos nonempty), CommandHandler.handleClient_eq buffered]
    rcases CommandHandler.processFed handler (oneChunk chunk) with
      ⟨⟨_ | _, _, _, _⟩⟩ | _ | _ <;> rfl
  rw [bytesTo, TcpServer.serve]
  simp only [call]
  cases CommandHandler.processFed handler (oneChunk chunk) with
  | returned processed => simp only [kept]
  | overrun => rfl
  | endless => rfl

/-- The first answer to such a client is that to the message at the front of what was left in
the parser and the chunk together. -/
theorem first_answer (nonempty : chunk ≠ []) (fits : chunk.length ≤ ClientConnection.maxBufferSize)
    (served : bytesTo handler ⟨[chunk], []⟩ = .returned sent) (answered : sent ≠ []) :
    ∃ request rest, Takes (handler.parser ++ chunk) [request] rest ∧
      (handler.store.executeCommand request).1.serialize <+: sent := by
  rw [bytesTo_oneChunk nonempty fits] at served
  split at served
  next processed ran =>
    cases served
    exact CommandHandler.processLoop_first ran rfl List.not_mem_nil answered
  next => cases served
  next => cases served

/-- A handler with an empty parser answers a chunk that is one message. -/
theorem fresh_answer (kv : KVStore) {request : Message}
    (fits : chunk.length ≤ ClientConnection.maxBufferSize)
    (complete : Parser.hasMessage chunk = true) (takes : Takes chunk [request] []) :
    bytesTo ⟨[], kv⟩ ⟨[chunk], []⟩ = .returned (kv.executeCommand request).1.serialize := by
  cases chunk with
  | nil => cases complete
  | cons byte chunk =>
    obtain ⟨later, -, -, step⟩ := CommandHandler.processLoop_message (chunk.length + 1) 0
      ⟨byte :: chunk, kv⟩ { oneChunk (byte :: chunk) with fed := byte :: chunk } complete
      (Parser.parseMessage_of_takes takes) rfl List.not_mem_nil
    have ran : CommandHandler.processFed ⟨[], kv⟩ (oneChunk (byte :: chunk)) = _ :=
      step.trans (CommandHandler.processLoop_stop rfl)
    rw [bytesTo_oneChunk (List.cons_ne_nil _ _) fits, ran]
    rfl

end OneChunk

/-! ### Who answers PONG -/

namespace KVStore

/-- A simple string is the answer OK, or that to PING without a message. -/
theorem handlers_simpleString : ∀ entry ∈ handlers, ∀ kv args,
    (entry.2 kv args).1.getType = .simpleString →
      (entry.2 kv args).1 = okResponse ∨ (entry.1 = text "PING" ∧ ∃ name, args = [name]) := by
  have ok : ∀ {msg : Message} {named : Prop}, msg = okResponse →
      msg.getType = .simpleString → msg = okResponse ∨ named := fun same _ => .inl same
  have other : ∀ {msg : Message} {named : Prop} (type : MessageType), msg.getType = type →
      type ≠ .simpleString → msg.getType = .simpleString → msg = okResponse ∨ named :=
    fun _ same differs simple => absurd (same.symm.trans simple) differs
  -- One handler of the table after the other, in its order.
  simp only [handlers, List.forall_mem_cons]
  refine ⟨fun kv args => ?_, fun kv args => ?_, fun kv args => ?_, fun kv args => ?_,
    fun kv args => ?_, fun kv args => ?_, fun kv args => ?_, fun kv args => ?_, fun kv args => ?_,
    fun kv args => ?_, fun _ listed => absurd listed List.not_mem_nil⟩
  · unfold handleGet
    split
    · dsimp only
      split
      · exact other .bulkString rfl (by decide)
      · exact other .nullValue rfl (by decide)
    · exact other .errorMsg rfl (by decide)
  · unfold handleSet
    split
    · exact ok rfl
    · exact other .errorMsg rfl (by decide)
  · unfold handleDel
    split
    · exact other .integer rfl (by decide)
    · exact other .errorMsg rfl (by decide)
  · unfold handleExists
    split
    · exact other .integer rfl (by decide)
    · exact other .errorMsg rfl (by decide)
  · unfold handleKeys
    split
    · exact other .array rfl (by decide)
    · exact other .errorMsg rfl (by decide)
  · unfold handlePing
    split
    · exact fun _ => .inr ⟨trivial, _, rfl⟩
    · exact other .bulkString rfl (by decide)
    · exact other .errorMsg rfl (by decide)
  · unfold handleEcho
    split
    · exact other .bulkString rfl (by decide)
    · exact other .errorMsg rfl (by decide)
  · unfold handleFlushdb
    split
    · exact ok rfl
    · exact other .errorMsg rfl (by decide)
  · unfold handleDbsize
    split
    · exact other .integer rfl (by decide)
    · exact other .errorMsg rfl (by decide)
  · exact other .bulkString rfl (by decide)

theorem executeCommand_simpleString {kv : KVStore} {request : Message}
    (simple : (kv.executeCommand request).1.getType = .simpleString) :
    (kv.executeCommand request).1 = okResponse ∨
      ∃ name, parseCommand request = [name] ∧ toUpper name = text "PING" := by
  unfold executeCommand at simple ⊢
  dsimp only at simple ⊢
  split at simple
  next => cases simple
  next =>
    unfold executeRaw at simple ⊢
    -- Only a registered handler answers with a simple string.
    split at simple
    next => cases simple
    next name operands command =>
      split at simple
      next => cases simple
      next handler registered =>
        rcases handlers_simpleString _ (mem_of_lookup registered) _ _ simple with
          ok | ⟨ping, _, alone⟩
        · exact .inl ok
        · rw [command] at alone
          cases alone
          exact .inr ⟨name, command, ping⟩

end KVStore

/-! ### The frame of a PING -/

/-- The frame of a command of one argument, of any of the string types. -/
def oneArgument (type : MessageType) (name : Bytes) : Bytes :=
  frame .array (UInt32.ofNat 1) (frame type (UInt32.ofNat name.length) name)

theorem commandStrings_eq_singleton {elems : List (Option Message)} {name : Bytes}
    (strings : commandStrings elems = some [name]) :
    ∃ elem, elems = [some elem] ∧ elem.isString = true ∧ elem.asString = name := by
  match elems with
  | [] => cases strings
  | none :: rest => cases strings
  | some elem :: rest =>
    rw [commandStrings] at strings
    split at strings
    next isString =>
      obtain ⟨others, empty, same⟩ := Option.map_eq_some_iff.mp strings
      rw [List.cons.injEq] at same
      obtain ⟨rfl, rfl⟩ := same
      -- A further element would give a further string.
      match rest with
      | [] => exact ⟨elem, rfl, isString, rfl⟩
      | none :: _ => cases empty
      | some next :: _ =>
        rw [commandStrings] at empty
        split at empty
        · obtain ⟨_, _, impossible⟩ := Option.map_eq_some_iff.mp empty
          cases impossible
        · cases empty
    next => cases strings

/-- A command of one argument is an array of one string. -/
theorem parseCommand_eq_singleton {request : Message} {name : Bytes}
    (command : parseCommand request = [name]) (named : name ≠ []) :
    ∃ type, type.isText = true ∧ request = Message.makeArray [some (.string type name)] := by
  unfold parseCommand at command
  split at command
  next isArray =>
    match request with
    | .array type elems =>
      have array : type = .array := of_decide_eq_true isArray
      subst array
      have strings : (commandStrings elems).getD [] = [name] := command
      cases found : commandStrings elems with
      | none =>
        rw [found] at strings
        cases strings
      | some names =>
        rw [found] at strings
        cases strings
        obtain ⟨elem, rfl, isString, same⟩ := commandStrings_eq_singleton found
        -- Only a string variant has a text that is not empty.
        match elem with
        | .string type str =>
          cases same
          refine ⟨type, ?_, rfl⟩
          cases type <;> first | rfl | cases isString
        | .monostate _ => exact absurd same.symm named
        | .int64 _ _ => exact absurd same.symm named
        | .array _ _ => exact absurd same.symm named
    | .monostate _ => cases command
    | .string _ _ => cases command
    | .int64 _ _ => cases command
  next => cases command

theorem takes_textFrame_inv {buffer rest str : Bytes} {type : MessageType}
    (takes : Takes buffer [.string type str] rest) (fits : str.length ≤ 2 ^ 32 - 6) :
    buffer = frame type (UInt32.ofNat str.length) str ++ rest := by
  cases takes with
  | text type length header isText enough range later =>
    cases later
    -- The length field is the length of the string, which is too short to wrap.
    have front := readHeader_eq_some header
    generalize buffer.drop 5 = body at front
    subst front
    have whole : (type.toByte :: (lengthBytes length ++ body)).length = 5 + body.length := by
      simp
      omega
    have data : ((type.toByte :: (lengthBytes length ++ body)).take (5 + length.toNat)).drop 5 =
        body.take length.toNat := by
      rw [← List.take_drop]
      rfl
    rw [whole] at range
    have announced : (body.take length.toNat).length = length.toNat := by
      rw [List.length_take]
      omega
    rw [data, announced] at fits
    have sum : (5 + length).toNat = 5 + length.toNat := by
      rw [UInt32.toNat_add]
      exact Nat.mod_eq_of_lt (by change 5 + length.toNat < 2 ^ 32; omega)
    rw [data, announced, UInt32.ofNat_toNat, sum, frame_append, ← List.drop_drop]
    change _ = _ :: (lengthBytes length ++ (body.take _ ++ body.drop _))
    rw [List.take_append_drop]

/-- The only buffers at whose front a command of one argument is read. -/
theorem takes_oneArgument_inv {buffer rest name : Bytes} {type : MessageType}
    (takes : Takes buffer [Message.makeArray [some (.string type name)]] rest)
    (fits : name.length ≤ 2 ^ 32 - 6) : buffer = oneArgument type name ++ rest := by
  generalize elements : [some (Message.string type name)] = elems at takes
  cases takes with
  | array count elems header counted inner later =>
    cases later
    have single : elems = [.string type name] := by
      match elems, elements with
      | [_], same =>
        cases same
        rfl
    subst single
    -- The header counts the elements.
    have one : count = UInt32.ofNat 1 := by
      rw [← UInt32.ofNat_toNat (x := count), ← counted]
      rfl
    have front := readHeader_eq_some header
    rw [takes_textFrame_inv inner fits, one] at front
    rw [front, oneArgument, frame_append .array]

theorem takes_oneArgument {type : MessageType} {name : Bytes} (isText : type.isText = true)
    (fits : name.length ≤ 2 ^ 32 - 6) (rest : Bytes) :
    Takes (oneArgument type name ++ rest) [Message.makeArray [some (.string type name)]] rest := by
  have single : [Message.string type name].length = 1 := rfl
  exact takes_arrayFrame single (by decide) (takes_textFrame isText fits rest)

/-- No other array starts inside the frame of a PING, in whatever case. -/
theorem five_not_mem {type : MessageType} {name : Bytes} (isText : type.isText = true)
    (pinged : KVStore.toUpper name = text "PING") : 0x05 ∉ (oneArgument type name).tail := by
  have four : name.length = 4 := by
    rw [← List.length_map (f := KVStore.toUpperByte)]
    exact congrArg List.length pinged
  have letter : 0x05 ∉ name := by
    intro member
    have upper : KVStore.toUpperByte 0x05 ∈ text "PING" := by
      rw [← pinged]
      exact List.mem_map_of_mem member
    exact absurd upper (by decide)
  -- Neither the type, nor a length byte, nor a letter is the type of an array.
  have kind : 0x05 ≠ type.toByte := by
    cases type <;> first | decide | cases isText
  rw [oneArgument, four, frame, List.tail_cons, frame, List.mem_append, List.mem_cons,
    List.mem_append]
  rintro (length | same | length | member)
  · exact absurd length (by decide)
  · exact kind same
  · exact absurd length (by decide)
  · exact letter member

/-! ### Two clients that tell what was left -/

def nullFrame : Bytes := Message.makeNull.serialize

def pingFrame : Bytes := commandFrame [text "PING"]

theorem fresh_null (kv : KVStore) :
    bytesTo ⟨[], kv⟩ ⟨[nullFrame], []⟩ =
      .returned (errorResponse (text "ERR invalid command format")).serialize :=
  fresh_answer kv (by decide) rfl (takes_nullFrame [])

theorem fresh_ping (kv : KVStore) :
    bytesTo ⟨[], kv⟩ ⟨[pingFrame], []⟩ = .returned pongResponse.serialize := by
  have short : (commandFrame [text "PING"]).length ≤ 2 ^ 20 := by decide
  have takes := takes_commandFrame short []
  rw [List.append_nil] at takes
  exact fresh_answer kv (by decide) (by decide) takes

section Same

variable {handler : CommandHandler} {chunk sent : Bytes}

/-- What is sent starts with the type of the answer to the first message. -/
theorem first_answer_type (nonempty : chunk ≠ [])
    (fits : chunk.length ≤ ClientConnection.maxBufferSize) (answer : Message)
    (served : bytesTo handler ⟨[chunk], []⟩ = .returned answer.serialize) :
    ∃ request rest, Takes (handler.parser ++ chunk) [request] rest ∧
      (handler.store.executeCommand request).1.serialize <+: answer.serialize ∧
      (handler.store.executeCommand request).1.getType = answer.getType := by
  obtain ⟨request, rest, takes, front⟩ :=
    first_answer nonempty fits served (serialize_ne_nil answer)
  refine ⟨request, rest, takes, front, ?_⟩
  obtain ⟨others, whole⟩ := front
  have head := serialize_head answer
  rw [← whole, List.head?_append, serialize_head, Option.some_or, Option.some.injEq] at head
  have type := congrArg MessageType.ofByte head
  rw [MessageType.ofByte_toByte, MessageType.ofByte_toByte] at type
  exact Option.some.inj type

variable
  (null : bytesTo handler ⟨[nullFrame], []⟩ = bytesTo ⟨[], handler.store⟩ ⟨[nullFrame], []⟩)
  (ping : bytesTo handler ⟨[pingFrame], []⟩ = bytesTo ⟨[], handler.store⟩ ⟨[pingFrame], []⟩)

include null ping

/-- What was left does not start with a message: that would be answered first, whatever
follows. -/
theorem not_takes_of_same (request : Message) (rest : Bytes) :
    ¬ Takes handler.parser [request] rest := by
  intro alone
  have same : ∀ {chunk other : Bytes} {first : Message},
      Takes (handler.parser ++ chunk) [first] other → first = request := by
    intro chunk other first takes
    have parsed := Parser.parseMessage_of_takes takes
    rw [Parser.parseMessage_of_takes (alone.append chunk)] at parsed
    cases parsed
    rfl
  -- One message cannot be answered with an error and with a simple string.
  rw [fresh_null] at null
  rw [fresh_ping] at ping
  obtain ⟨first, _, takes, -, error⟩ := first_answer_type (by decide) (by decide) _ null
  obtain ⟨second, _, takes', -, simple⟩ := first_answer_type (by decide) (by decide) _ ping
  rw [same takes] at error
  rw [same takes', error] at simple
  cases simple

/-- A second client that gets the answers of a fresh handler finds an empty parser. -/
theorem parser_eq_nil_of_same : handler.parser = [] := by
  have nothing := not_takes_of_same null ping
  rw [fresh_ping] at ping
  obtain ⟨request, rest, takes, front, simple⟩ :=
    first_answer_type (by decide) (by decide) _ ping
  -- PONG answers a PING, so its frame is at the front of what was left and the new frame.
  rcases KVStore.executeCommand_simpleString simple with ok | ⟨name, command, pinged⟩
  · rw [ok] at front
    exact absurd front (by decide)
  · have four : name.length = 4 := by
      rw [← List.length_map (f := KVStore.toUpperByte)]
      exact congrArg List.length pinged
    obtain ⟨type, isText, rfl⟩ :=
      parseCommand_eq_singleton command (List.ne_nil_of_length_pos (by omega))
    have stream := takes_oneArgument_inv takes (by omega)
    have alone : ∀ more, handler.parser ≠ oneArgument type name ++ more := by
      intro more same
      have takes := takes_oneArgument isText (show name.length ≤ 2 ^ 32 - 6 by omega) more
      rw [← same] at takes
      exact nothing _ _ takes
    -- What was left is a part of that frame, or all of it and more.
    rcases List.append_eq_append_iff.mp stream with ⟨more, inside, frame⟩ | ⟨more, same, -⟩
    · match remains : handler.parser, more with
      | [], _ => rfl
      | first :: others, [] =>
        rw [List.append_nil] at inside
        exact absurd (by rw [inside, List.append_nil]) (alone [])
      | first :: others, byte :: more =>
        -- The frame of the PING starts inside what is read, behind its first byte.
        have five : byte = 0x05 := (List.cons.inj frame).1.symm
        have member : 0x05 ∈ (oneArgument type name).tail := by
          rw [inside, remains, five]
          exact List.mem_append_right others List.mem_cons_self
        exact absurd member (five_not_mem isText pinged)
    · exact absurd same (alone more)

end Same

/-- What the next client gets, after a first one on the same handler. -/
def bytesToSecond (start : CommandHandler) (first second : TcpServer.Session) : Handled Bytes :=
  match TcpServer.serve start first with
  | .returned (_, left) => bytesTo left second
  | .overrun => .overrun
  | .endless => .endless

/-- **When connections do not leak.** Whatever the first client did, the second one always gets
what a fresh handler on the same store would send exactly when the first left no byte in the
parser. And where another first client left the same store and no byte, the second client
cannot tell the two apart exactly then. -/
theorem second_client_iff {start left : CommandHandler} {first : TcpServer.Session} {sent : Bytes}
    (served : TcpServer.serve start first = .returned (sent, left)) :
    ((∀ second, bytesToSecond start first second = bytesTo ⟨[], left.store⟩ second) ↔
        left.parser = []) ∧
      ∀ start' first' sent' left', TcpServer.serve start' first' = .returned (sent', left') →
        left'.store = left.store → left'.parser = [] →
          ((∀ second, bytesToSecond start first second = bytesToSecond start' first' second) ↔
            left.parser = []) := by
  have second : ∀ second, bytesToSecond start first second = bytesTo left second := by
    intro second
    rw [bytesToSecond, served]
  have isolated : (∀ second, bytesToSecond start first second = bytesTo ⟨[], left.store⟩ second) ↔
      left.parser = [] := by
    constructor
    · intro same
      exact parser_eq_nil_of_same ((second _).symm.trans (same _)) ((second _).symm.trans (same _))
    · intro empty session
      rw [second, ← empty]
  refine ⟨isolated, ?_⟩
  intro start' first' sent' left' served' stored empty
  -- The other first client leaves a fresh handler on the same store.
  have fresh : ∀ second,
      bytesToSecond start' first' second = bytesTo ⟨[], left.store⟩ second := by
    intro second
    rw [bytesToSecond, served', ← stored, ← empty]
  simp only [fresh]
  exact isolated

theorem second_client_iff_byte :
    TcpServer.serve ⟨[], .initial⟩ ⟨[[0x05]], []⟩ = .returned ([], ⟨[0x05], .initial⟩) ∧
      TcpServer.serve ⟨[], .initial⟩ ⟨[], []⟩ = .returned ([], ⟨[], .initial⟩) ∧
      ((∀ second, bytesToSecond ⟨[], .initial⟩ ⟨[[0x05]], []⟩ second =
          bytesToSecond ⟨[], .initial⟩ ⟨[], []⟩ second) ↔ ([0x05] : Bytes) = []) :=
  ⟨rfl, rfl,
    (@second_client_iff ⟨[], .initial⟩ ⟨[0x05], .initial⟩ ⟨[[0x05]], []⟩ [] rfl).2
      ⟨[], .initial⟩ ⟨[], []⟩ [] ⟨[], .initial⟩ rfl rfl rfl⟩

/-- A first client that sends one byte of a frame leaves the same store as one that sends
nothing, but after it the second client gets no answer to its PING. -/
theorem byte_left_to_second_client :
    ∃ left left', TcpServer.serve ⟨[], .initial⟩ ⟨[[0x05]], []⟩ = .returned ([], left) ∧
      TcpServer.serve ⟨[], .initial⟩ ⟨[], []⟩ = .returned ([], left') ∧
      left.store = left'.store ∧
      bytesToSecond ⟨[], .initial⟩ ⟨[[0x05]], []⟩ ⟨[pingFrame], []⟩ ≠
        bytesToSecond ⟨[], .initial⟩ ⟨[], []⟩ ⟨[pingFrame], []⟩ := by
  refine ⟨⟨[0x05], .initial⟩, ⟨[], .initial⟩, rfl, rfl, rfl, fun same => ?_⟩
  have silent : (bytesToSecond ⟨[], .initial⟩ ⟨[[0x05]], []⟩ ⟨[pingFrame], []⟩).result? =
      some [] := by decide
  have pong : (bytesToSecond ⟨[], .initial⟩ ⟨[], []⟩ ⟨[pingFrame], []⟩).result? =
      some pongResponse.serialize := by decide
  rw [same, pong] at silent
  cases silent

end ScuffedRedis
