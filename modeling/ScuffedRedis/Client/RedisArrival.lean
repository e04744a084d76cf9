import ScuffedRedis.Client.RedisPairing
import ScuffedRedis.Protocol.HasMessage
import ScuffedRedis.Server.ConnectionLaws

/-!
# When a reply arrives

The client reads on until `has_message` sees a message, and then parses once. In front of an array
`has_message` is content with the header, so an array has to come with the read that brings the
header to an end. Any other reply may come in any portions.
-/
namespace ScuffedRedis
namespace RedisClient

open Foundation Protocol

/-- The waits for data bring the whole reply, of which `read` bytes are there, before the client
stops to read. Those of an array that come after its header come too late. -/
def Arrives (reply : Message) (read : Nat) : List Receive → Prop
  | [] => read = reply.serialize.length
  | receive :: receives =>
    read = reply.serialize.length ∨
      (reply.isArray = true → read < 5) ∧ ∃ count, 0 < count ∧ receive = .data count ∧
        Arrives reply (min (read + min count bufferSize) reply.serialize.length) receives

/-! ### What `has_message` sees of a reply -/

/-- The front of a frame is a message to `has_message` when its header is there and nothing is
missing, or when it is an array. -/
theorem hasMessage_front {type : MessageType} {length : UInt32} {data front missing : Bytes}
    (fits : type ≠ .array → length.toNat ≤ 2 ^ 32 - 6 ∧ length.toNat = data.length)
    (whole : front ++ missing = frame type length data) :
    Parser.hasMessage front = true ↔ 5 ≤ front.length ∧ (type = .array ∨ missing = []) := by
  by_cases long : 5 ≤ front.length
  · have header : Parser.readHeader front = some (type.toByte, length) := by
      have read := readHeader_frame type length data []
      rwa [List.append_nil, ← whole, readHeader_append_of_le long] at read
    by_cases array : type = .array
    · subst array
      exact iff_of_true (hasMessage_array header) ⟨long, .inl rfl⟩
    · obtain ⟨short, announced⟩ := fits array
      have sizes := congrArg List.length whole
      rw [List.length_append, length_frame, ← announced] at sizes
      have other : MessageType.ofByte type.toByte ≠ some .array := by
        rw [MessageType.ofByte_toByte]
        exact fun same => array (Option.some.inj same)
      rw [Parser.hasMessage_iff header short, or_iff_right other, and_iff_right long,
        or_iff_right array, ← List.length_eq_zero_iff]
      omega
  · rw [hasMessage_short (by omega)]
    simp [long]

/-- A reply is one frame, and only that of an array may announce something else than its data. -/
theorem frame_of_encodable {reply : Message} (built : reply.Encodable) :
    ∃ type length data, reply.serialize = frame type length data ∧
      (type = .array ↔ reply.isArray = true) ∧
      (type ≠ .array → length.toNat ≤ 2 ^ 32 - 6 ∧ length.toNat = data.length) := by
  -- A string announces its length, and what has no string a constant.
  have textFrame (type : MessageType) {str : Bytes}
      (fits : str.length ≤ 2 ^ 32 - 6) :
      ∃ type' length data, frame type (UInt32.ofNat str.length) str = frame type' length data ∧
        (type' = .array ↔ decide (type = .array) = true) ∧
        (type' ≠ .array → length.toNat ≤ 2 ^ 32 - 6 ∧ length.toNat = data.length) := by
    obtain ⟨announced, -⟩ := Parser.toNat_announced fits
    exact ⟨_, _, _, rfl, decide_eq_true_iff.symm, fun _ => ⟨by rwa [announced], announced⟩⟩
  cases built with
  | simpleString str fits => exact textFrame .simpleString fits
  | error str fits => exact textFrame .errorMsg fits
  | bulkString str fits => exact textFrame .bulkString fits
  | integer value =>
    exact ⟨.integer, 8, integerBytes value, rfl, decide_eq_true_iff.symm, fun _ => ⟨by decide, rfl⟩⟩
  | array elems _ _ =>
    exact ⟨.array, _, _, rfl, decide_eq_true_iff.symm, fun other => absurd rfl other⟩
  | null => exact ⟨.nullValue, 0, [], rfl, decide_eq_true_iff.symm, fun _ => ⟨by decide, rfl⟩⟩

theorem hasMessage_reply_iff {reply : Message} (built : reply.Encodable) {front missing : Bytes}
    (whole : front ++ missing = reply.serialize) :
    Parser.hasMessage front = true ↔
      missing = [] ∨ reply.isArray = true ∧ 5 ≤ front.length := by
  obtain ⟨type, length, data, framed, array, fits⟩ := frame_of_encodable built
  rw [framed] at whole
  have sizes := congrArg List.length whole
  rw [List.length_append, length_frame] at sizes
  rw [hasMessage_front fits whole, array]
  constructor
  · rintro ⟨long, isArray | complete⟩
    · exact .inr ⟨isArray, long⟩
    · exact .inl complete
  · rintro (rfl | ⟨isArray, long⟩)
    · rw [List.length_nil] at sizes
      exact ⟨by omega, .inr rfl⟩
    · exact ⟨long, .inl isArray⟩

/-! ### Reading on -/

/-- The state in which the parser has the first `read` bytes of the reply, and the others are on
the connection. -/
structure Reading (reply : Message) (read : Nat) (redis : RedisClient) : Prop where
  parser : redis.parser = reply.serialize.take read
  incoming : redis.client.incoming = reply.serialize.drop read
  connected : redis.client.connected = true
  fits : read ≤ reply.serialize.length

section Read

variable {reply : Message} {read count : Nat} {redis : RedisClient} {receives : List Receive}

theorem Reading.whole (reading : Reading reply read redis) :
    redis.parser ++ redis.client.incoming = reply.serialize := by
  rw [reading.parser, reading.incoming, List.take_append_drop]

theorem Reading.complete_iff (reading : Reading reply read redis) :
    redis.client.incoming = [] ↔ read = reply.serialize.length := by
  have := reading.fits
  rw [reading.incoming, List.drop_eq_nil_iff]
  omega

/-- A wait that ends with data. -/
theorem Reading.receive (reading : Reading reply read redis) (positive : 0 < count)
    (incomplete : read ≠ reply.serialize.length) :
    ∃ chunk client,
      redis.client.receiveWithTimeout bufferSize (.data count) = (some chunk, client) ∧
      Reading reply (min (read + min count bufferSize) reply.serialize.length)
        ⟨client, Parser.feed redis.parser chunk⟩ := by
  have bound := reading.fits
  have size : 0 < min count bufferSize := by
    have : 0 < bufferSize := by decide
    omega
  have nonempty : redis.client.incoming.take (min count bufferSize) ≠ [] := by
    rw [reading.incoming]
    refine List.ne_nil_of_length_pos ?_
    rw [List.length_take, List.length_drop]
    omega
  obtain ⟨byte, bytes, taken⟩ := List.exists_cons_of_ne_nil nonempty
  refine ⟨byte :: bytes,
    { redis.client with incoming := redis.client.incoming.drop (min count bufferSize) }, ?_, ?_⟩
  · rw [TcpClient.receiveWithTimeout, if_neg (by simp [reading.connected])]
    simp only [taken]
  · refine ⟨?_, ?_, reading.connected, Nat.min_le_right _ _⟩
    · rw [Parser.feed, reading.parser, ← taken, reading.incoming, ← List.take_add,
        List.take_eq_take_min]
    · change redis.client.incoming.drop (min count bufferSize) = _
      rw [reading.incoming, List.drop_drop]
      rcases Nat.le_total (read + min count bufferSize) reply.serialize.length with within | beyond
      · rw [Nat.min_eq_left within]
      · rw [Nat.min_eq_right beyond, List.drop_length, List.drop_eq_nil_of_le beyond]

/-- One turn of the loop. -/
theorem readOn_cons (redis : RedisClient) (receive : Receive) (receives : List Receive) :
    readOn redis (receive :: receives) =
      if Parser.hasMessage redis.parser = false ∧ redis.client.connected = true then
        match redis.client.receiveWithTimeout bufferSize receive with
        | (some chunk, client) =>
          readOn { client := client, parser := Parser.feed redis.parser chunk } receives
        | (none, client) => { redis with client := client }
      else redis := rfl

/-- `has_message` stops the loop at the end of the reply, or behind the header of an array. -/
theorem Reading.seen_iff (built : reply.Encodable) (reading : Reading reply read redis) :
    Parser.hasMessage redis.parser = true ↔
      read = reply.serialize.length ∨ reply.isArray = true ∧ 5 ≤ read := by
  have length : redis.parser.length = read := by
    rw [reading.parser, List.length_take, Nat.min_eq_left reading.fits]
  rw [hasMessage_reply_iff built reading.whole, reading.complete_iff, length]

theorem Reading.unseen (built : reply.Encodable) (reading : Reading reply read redis)
    (incomplete : read ≠ reply.serialize.length) (early : reply.isArray = true → read < 5) :
    Parser.hasMessage redis.parser = false := by
  rw [← Bool.not_eq_true, reading.seen_iff built]
  rintro (all | ⟨isArray, long⟩)
  · exact incomplete all
  · have := early isArray
    omega

/-- A reply that arrives is in the parser after the loop. -/
theorem readOn_arrives (built : reply.Encodable) (reading : Reading reply read redis)
    (arrives : Arrives reply read receives) :
    Reading reply reply.serialize.length (readOn redis receives) := by
  induction receives generalizing read redis with
  | nil =>
    have all : read = reply.serialize.length := arrives
    exact all ▸ reading
  | cons receive receives ih =>
    rw [readOn_cons]
    by_cases all : read = reply.serialize.length
    · have seen := (reading.seen_iff built).mpr (.inl all)
      rw [if_neg (by simp [seen])]
      exact all ▸ reading
    · obtain ⟨early, count, positive, rfl, later⟩ := arrives.resolve_left all
      obtain ⟨chunk, client, received, reading'⟩ := reading.receive positive all
      rw [if_pos ⟨reading.unseen built all early, reading.connected⟩, received]
      exact ih reading' later

/-- What brings an array to its end is the header and one more read. -/
theorem arrives_array_length (isArray : reply.isArray = true) (started : read < 5)
    (arrives : Arrives reply read receives) : reply.serialize.length ≤ 4 + bufferSize := by
  have bound : bufferSize = 4096 := rfl
  induction receives generalizing read with
  | nil =>
    have all : read = reply.serialize.length := arrives
    omega
  | cons receive receives ih =>
    rcases arrives with all | ⟨-, count, -, -, later⟩
    · omega
    · by_cases still : min (read + min count bufferSize) reply.serialize.length < 5
      · exact ih still later
      · -- The next turn of the loop, if there is one, sees the header.
        have all : min (read + min count bufferSize) reply.serialize.length =
            reply.serialize.length := by
          cases receives with
          | nil => exact later
          | cons => exact later.resolve_right fun more => still (more.1 isArray)
        omega

end Read

/-! ### Commands -/

section Command

variable {reply : Message} {redis : RedisClient} {receives : List Receive}

theorem positive_length (reply : Message) : 0 ≠ reply.serialize.length := fun empty =>
  serialize_ne_nil reply (List.length_eq_zero_iff.mp empty.symm)

/-- A reply that arrives is returned, and the connection is ready for the next command. -/
theorem receiveReply_arrives (built : reply.Encodable) (reading : Reading reply 0 redis)
    (arrives : Arrives reply 0 receives) :
    ∃ last, receiveReply redis receives = some (reply.readBack, last) ∧ Settled last ∧
      last.client.connected = true := by
  cases receives with
  | nil => exact absurd arrives (positive_length reply)
  | cons receive receives =>
    obtain ⟨-, count, positive, rfl, later⟩ := arrives.resolve_left (positive_length reply)
    obtain ⟨chunk, client, received, reading'⟩ := reading.receive positive (positive_length reply)
    have got := readOn_arrives built reading' later
    have takes := takes_serialize built []
    rw [receiveReply, received]
    simp only
    generalize readOn ⟨client, Parser.feed redis.parser chunk⟩ receives = final at got
    rw [List.append_nil, ← List.take_length (l := reply.serialize), ← got.parser] at takes
    refine ⟨{ final with parser := [] }, ?_, ⟨rfl, ?_⟩, got.connected⟩
    · rw [parseReply, Parser.parseMessage_of_takes takes]
    · exact got.incoming.trans List.drop_length

theorem reading_sent (settled : Settled redis) (connected : redis.client.connected = true)
    (cmd reply : Message) : Reading reply 0 (redis.sent cmd reply) where
  parser := settled.1
  incoming := by
    rw [List.drop_zero, sent, settled.2]
    exact List.nil_append _
  connected := connected
  fits := Nat.zero_le _

theorem execute_arrives {args : List Bytes} {exchange : Exchange} (settled : Settled redis)
    (built : exchange.reply.Encodable) (connected : redis.client.connected = true)
    (nonempty : args ≠ []) (taken : exchange.taken = true)
    (arrives : Arrives exchange.reply 0 exchange.receives) :
    ∃ last, redis.execute args exchange = some (exchange.reply.readBack, last) ∧
      Settled last ∧ last.client.connected = true := by
  rw [execute, if_neg nonempty, sendCommand_taken _ (by simp [connected]) taken]
  exact receiveReply_arrives built (reading_sent settled connected _ _) arrives

end Command

end RedisClient
end ScuffedRedis
