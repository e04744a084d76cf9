import ScuffedRedis.Protocol.ParserLaws

/-!
# Decoding undoes encoding

The frames of a pipelined stream are taken off its front one by one, whatever bytes
follow them.
-/
namespace ScuffedRedis.Protocol

namespace Message

/-- Built with the factory functions, with every string and every array within the range
of its length field and of the sum `5 + length`. -/
inductive Encodable : Message → Prop
  | simpleString (str) : str.length ≤ 2 ^ 32 - 6 → Encodable (makeSimpleString str)
  | error (str) : str.length ≤ 2 ^ 32 - 6 → Encodable (makeError str)
  | integer (value) : Encodable (makeInteger value)
  | bulkString (str) : str.length ≤ 2 ^ 32 - 6 → Encodable (makeBulkString str)
  | array (elems) : elems.length < 2 ^ 32 → (∀ elem, some elem ∈ elems → Encodable elem) →
      Encodable (makeArray elems)
  | null : Encodable makeNull

mutual

/-- The message that a peer reads: null element pointers have become NULL_VALUE messages. -/
def readBack : Message → Message
  | .array type elems => .array type ((readBackElements elems).map some)
  | msg => msg

def readBackElements : List (Option Message) → List Message
  | [] => []
  | some elem :: rest => elem.readBack :: readBackElements rest
  | none :: rest => makeNull :: readBackElements rest

end

theorem length_readBackElements (elems : List (Option Message)) :
    (readBackElements elems).length = elems.length := by
  induction elems with
  | nil => rfl
  | cons elem rest ih => cases elem <;> simp [readBackElements, ih]

end Message

open Message

theorem drop_frame (type : MessageType) (len : UInt32) (data rest : Bytes) :
    (frame type len data ++ rest).drop 5 = data ++ rest := rfl

theorem take_drop_frame (type : MessageType) (len : UInt32) (data rest : Bytes) :
    ((frame type len data ++ rest).take (5 + data.length)).drop 5 = data := by
  rw [← List.take_drop, drop_frame, List.take_left]

theorem drop_whole_frame (type : MessageType) (len : UInt32) (data rest : Bytes) :
    (frame type len data ++ rest).drop (5 + data.length) = rest := by
  rw [← length_frame type len data, List.drop_left]

theorem takes_textFrame {type : MessageType} (isText : type.isText = true) {str : Bytes}
    (fits : str.length ≤ 2 ^ 32 - 6) (rest : Bytes) :
    Takes (frame type (UInt32.ofNat str.length) str ++ rest) [.string type str] rest := by
  obtain ⟨announced, sum⟩ := Parser.toNat_announced fits
  have step : Takes (frame type (UInt32.ofNat str.length) str ++ rest) [.string type _] _ :=
    .text type (UInt32.ofNat str.length) (readHeader_frame _ _ _ _) isText
      (by rw [sum]; simp) (by rw [announced]; simp) (.done _)
  rwa [announced, sum, take_drop_frame, drop_whole_frame] at step

theorem takes_integerFrame (value : Int64) (rest : Bytes) :
    Takes (frame .integer 8 (integerBytes value) ++ rest) [makeInteger value] rest := by
  have step : Takes (frame .integer 8 (integerBytes value) ++ rest) [_] _ :=
    .integer (readHeader_frame _ _ _ _) (by simp) (.done _)
  rwa [show 13 = 5 + (integerBytes value).length from rfl, take_drop_frame, drop_whole_frame,
    integerValue_integerBytes] at step

theorem takes_nullFrame (rest : Bytes) :
    Takes (frame .nullValue 0 [] ++ rest) [makeNull] rest :=
  .null 0 (readHeader_frame _ _ _ _) (.done _)

/-- The frame of an array is taken as one message once its elements are. -/
theorem takes_arrayFrame {body rest : Bytes} {elems : List Message} {count : Nat}
    (counted : elems.length = count) (fits : count < 2 ^ 32)
    (inner : Takes (body ++ rest) elems rest) :
    Takes (frame .array (UInt32.ofNat count) body ++ rest) [makeArray (elems.map some)] rest := by
  have announced : (UInt32.ofNat count).toNat = count := UInt32.toNat_ofNat_of_lt' fits
  refine .array (UInt32.ofNat count) elems (readHeader_frame _ _ _ _) ?_ inner (.done _)
  rw [counted, announced]

theorem takes_serializeElements (elems : List (Option Message))
    (each : ∀ elem, some elem ∈ elems → ∀ rest, Takes (elem.serialize ++ rest) [elem.readBack] rest)
    (rest : Bytes) :
    Takes (serializeElements elems ++ rest) (readBackElements elems) rest := by
  induction elems with
  | nil => exact .done rest
  | cons elem others ih =>
    have later := ih fun elem member => each elem (List.mem_cons_of_mem _ member)
    cases elem with
    | none =>
      rw [serializeElements, readBackElements, List.append_assoc]
      exact (takes_nullFrame _).trans later
    | some elem =>
      rw [serializeElements, readBackElements, List.append_assoc]
      exact (each elem List.mem_cons_self _).trans later

/-- The serialization of a message is taken off the front as that message. -/
theorem takes_serialize {msg : Message} (built : Encodable msg) (rest : Bytes) :
    Takes (msg.serialize ++ rest) [msg.readBack] rest := by
  induction built generalizing rest with
  | simpleString str fits => exact takes_textFrame rfl fits rest
  | error str fits => exact takes_textFrame rfl fits rest
  | integer value => exact takes_integerFrame value rest
  | bulkString str fits => exact takes_textFrame rfl fits rest
  | array elems fits _ ih =>
    have inner := takes_serializeElements elems ih rest
    exact takes_arrayFrame (length_readBackElements elems) fits inner
  | null => exact takes_nullFrame rest

theorem takes_serializeMessages {msgs : List Message} (built : ∀ msg ∈ msgs, Encodable msg)
    (rest : Bytes) :
    Takes (serializeMessages (msgs.map some) ++ rest) (msgs.map readBack) rest := by
  induction msgs with
  | nil => exact .done rest
  | cons msg others ih =>
    have first := takes_serialize (built msg List.mem_cons_self)
      (serializeMessages (others.map some) ++ rest)
    have later := ih fun msg member => built msg (List.mem_cons_of_mem _ member)
    simpa [serializeMessages] using first.trans later

/-! ### Repeated calls -/

/-- The results of `calls` successive calls of `parse_message`. -/
def Parser.parseMessages : Nat → Bytes → List ParseResult × Bytes
  | 0, buffer => ([], buffer)
  | calls + 1, buffer =>
    let (result, rest) := parseMessage buffer
    let (results, after) := parseMessages calls rest
    (result :: results, after)

/-- As many calls as there are messages at the front return them in order. -/
theorem parseMessages_of_takes {buffer rest : Bytes} {msgs : List Message}
    (takes : Takes buffer msgs rest) :
    Parser.parseMessages msgs.length buffer = (msgs.map .message, rest) := by
  induction msgs generalizing buffer with
  | nil =>
    cases takes
    rfl
  | cons msg others ih =>
    obtain ⟨middle, first, later⟩ := takes.head
    simp [Parser.parseMessages, Parser.parseMessage_of_takes first, ih later]

/-- **Round trip.** A stream of serialized messages, followed by any bytes, is read back
message by message, and the bytes that follow it stay in the buffer. -/
theorem parseMessages_serializeMessages (msgs : List Message)
    (built : ∀ msg ∈ msgs, Encodable msg) (rest : Bytes) :
    Parser.parseMessages msgs.length (serializeMessages (msgs.map some) ++ rest) =
      (msgs.map fun msg => .message msg.readBack, rest) := by
  have read := parseMessages_of_takes (takes_serializeMessages built rest)
  simpa [Function.comp_def] using read

theorem parseMessages_nested_array :
    Parser.parseMessages 2
      (serializeMessages [some (makeArray [none, some (makeArray [some (makeInteger (-1))])]),
        some makeNull] ++ [0x05, 0x01]) =
      ([.message (makeArray [some makeNull, some (makeArray [some (makeInteger (-1))])]),
        .message makeNull], [0x05, 0x01]) :=
  parseMessages_serializeMessages
    [makeArray [none, some (makeArray [some (makeInteger (-1))])], makeNull]
    (by
      have leaf : Encodable (makeArray [some (makeInteger (-1))]) :=
        .array _ (by decide) fun elem member => by
          obtain rfl : elem = makeInteger (-1) := by simpa using member
          exact .integer (-1)
      intro msg member
      simp only [List.mem_cons, List.not_mem_nil, or_false] at member
      rcases member with rfl | rfl
      · refine .array _ (by decide) fun elem member => ?_
        obtain rfl : elem = makeArray [some (makeInteger (-1))] := by simpa using member
        exact leaf
      · exact .null)
    [0x05, 0x01]

end ScuffedRedis.Protocol
