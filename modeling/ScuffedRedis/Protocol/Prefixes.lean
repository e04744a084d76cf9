import ScuffedRedis.Protocol.RoundTrip

/-!
# Messages that have not arrived whole

A buffer that holds a part of a serialized message, and nothing else, parses to no message.
-/
namespace ScuffedRedis.Protocol

open Message

/-- What the buffer has of `whole`, from its front, lacks something at the end. -/
def PartOf (buffer whole : Bytes) : Prop := ∃ missing, missing ≠ [] ∧ whole = buffer ++ missing

theorem PartOf.length_lt {buffer whole : Bytes} (part : PartOf buffer whole) :
    buffer.length < whole.length := by
  obtain ⟨missing, nonempty, rfl⟩ := part
  rw [List.length_append]
  have := List.length_pos_iff.mpr nonempty
  omega

theorem not_partOf_nil (buffer : Bytes) : ¬ PartOf buffer [] := fun part =>
  absurd part.length_lt (Nat.not_lt_zero _)

/-- A part of two pieces ends in the first, or it has the first and a part of the second. -/
theorem PartOf.split {buffer first second : Bytes} (part : PartOf buffer (first ++ second)) :
    PartOf buffer first ∨ ∃ later, buffer = first ++ later ∧ PartOf later second := by
  obtain ⟨missing, nonempty, whole⟩ := part
  rcases List.append_eq_append_iff.mp whole with ⟨later, rfl, rest⟩ | ⟨more, rfl, rfl⟩
  · exact .inr ⟨later, rfl, missing, nonempty, rest⟩
  · cases more with
    | nil => exact .inr ⟨[], by simp, second, nonempty, rfl⟩
    | cons byte more => exact .inl ⟨byte :: more, by simp, rfl⟩

namespace Parser

/-- A part of a frame has no header, or the frame's and a part of its data. -/
theorem readHeader_part {buffer : Bytes} {type : MessageType} {len : UInt32} {data : Bytes}
    (part : PartOf buffer (frame type len data)) :
    readHeader buffer = none ∨
      readHeader buffer = some (type.toByte, len) ∧ PartOf (buffer.drop 5) data := by
  by_cases long : 5 ≤ buffer.length
  · obtain ⟨missing, nonempty, whole⟩ := part
    refine .inr ⟨?_, missing, nonempty, ?_⟩
    · have header := readHeader_frame type len data []
      rwa [List.append_nil, whole, readHeader_append_of_le long] at header
    · rw [← List.drop_append_of_le_length long, ← whole, ← List.append_nil (frame type len data),
        drop_frame, List.append_nil]
  · left
    match buffer, long with
    | [], _ | [_], _ | [_, _], _ | [_, _, _], _ | [_, _, _, _], _ => rfl
    | _ :: _ :: _ :: _ :: _ :: _, long => simp at long

/-- The outcome for a part of a message: no message, and some of the bytes may be gone. -/
def Nothing (buffer : Bytes) : Prop := ∃ rest, parseMessage buffer = (.nullptr, rest)

theorem nothing_of_no_header {buffer : Bytes} (noHeader : readHeader buffer = none) :
    Nothing buffer := ⟨buffer, by rw [parseMessage_eq, parseBody, noHeader]⟩

theorem nothing_text {type : MessageType} (isText : type.isText = true) {str buffer : Bytes}
    (fits : str.length ≤ 2 ^ 32 - 6)
    (part : PartOf buffer (frame type (UInt32.ofNat str.length) str)) : Nothing buffer := by
  rcases readHeader_part part with noHeader | ⟨header, -⟩
  · exact nothing_of_no_header noHeader
  · -- The header is there, and `has_bytes` asks for the whole frame.
    have short := part.length_lt
    obtain ⟨-, sum⟩ := toNat_announced fits
    rw [length_frame, ← sum] at short
    refine ⟨buffer, ?_⟩
    rw [parseMessage_eq, parseBody_text parseMessage header isText, parseText, hasBytes,
      decide_eq_false (Nat.not_le.mpr short)]
    rfl

theorem nothing_integer {value : Int64} {buffer : Bytes}
    (part : PartOf buffer (frame .integer 8 (integerBytes value))) : Nothing buffer := by
  rcases readHeader_part part with noHeader | ⟨header, -⟩
  · exact nothing_of_no_header noHeader
  · have short := part.length_lt
    rw [length_frame, length_integerBytes] at short
    refine ⟨buffer, ?_⟩
    rw [parseMessage_eq, parseBody, header]
    simp only [MessageType.ofByte_toByte, parseInteger, hasBytes,
      decide_eq_false (Nat.not_le.mpr short), or_true, if_true]

theorem nothing_null {buffer : Bytes} (part : PartOf buffer (frame .nullValue 0 [])) :
    Nothing buffer := by
  rcases readHeader_part part with noHeader | ⟨-, inside⟩
  · exact nothing_of_no_header noHeader
  · exact absurd inside (not_partOf_nil _)

/-- The element loop stops at the element that is not there whole. -/
theorem parseElements_part {elems : List (Option Message)}
    (built : ∀ elem, some elem ∈ elems → Encodable elem)
    (each : ∀ elem, some elem ∈ elems → ∀ buffer, PartOf buffer elem.serialize → Nothing buffer)
    {buffer : Bytes} (part : PartOf buffer (serializeElements elems))
    (array : List (Option Message)) :
    ∃ rest, parseElements parseMessage elems.length array buffer = (.nullptr, rest) := by
  induction elems generalizing buffer array with
  | nil => exact absurd part (not_partOf_nil buffer)
  | cons elem others ih =>
    obtain ⟨first, msg, written, taken, cut⟩ : ∃ first msg,
        serializeElements (elem :: others) = first ++ serializeElements others ∧
          (∀ later, Takes (first ++ later) [msg] later) ∧
          ∀ buffer, PartOf buffer first → Nothing buffer := by
      cases elem with
      | none => exact ⟨_, _, rfl, takes_nullFrame, fun _ => nothing_null⟩
      | some elem =>
        exact ⟨_, _, rfl, takes_serialize (built elem List.mem_cons_self),
          each elem List.mem_cons_self⟩
    rw [written] at part
    rw [List.length_cons]
    rcases part.split with inFirst | ⟨later, rfl, inOthers⟩
    · obtain ⟨rest, called⟩ := cut buffer inFirst
      exact ⟨rest, by rw [parseElements, called]⟩
    · -- The first element is there, and the loop goes on with the others.
      rw [parseElements_message (parseMessage_of_takes (taken later))]
      exact ih (fun elem listed => built elem (List.mem_cons_of_mem _ listed))
        (fun elem listed => each elem (List.mem_cons_of_mem _ listed)) inOthers _

/-- **No message from a part.** -/
theorem nothing_of_part {msg : Message} (built : Encodable msg) {buffer : Bytes}
    (part : PartOf buffer msg.serialize) : Nothing buffer := by
  -- The elements of an array are parsed by the same function, so they are the induction.
  induction built generalizing buffer with
  | simpleString str fits => exact nothing_text rfl fits part
  | error str fits => exact nothing_text rfl fits part
  | integer value => exact nothing_integer part
  | bulkString str fits => exact nothing_text rfl fits part
  | array elems fits each ih =>
    rw [makeArray, serialize] at part
    rcases readHeader_part part with noHeader | ⟨header, inside⟩
    · exact nothing_of_no_header noHeader
    · obtain ⟨rest, loop⟩ := parseElements_part each ih inside []
      refine ⟨rest, ?_⟩
      rw [parseMessage_eq, parseBody_array parseMessage header, UInt32.toNat_ofNat_of_lt' fits]
      exact loop
  | null => exact nothing_null part

end Parser
end ScuffedRedis.Protocol
