import ScuffedRedis.Protocol.HasMessage

/-!
# Encoding undoes decoding

What the parser takes from a buffer is as long as the frame of the message that it returns. It is
that frame when no null announces data: the length of a null is read and then ignored.
-/
namespace ScuffedRedis.Protocol

open Foundation Message

/-- The header announces at most `2^32 - 6`. -/
def Short (suffix : Bytes) : Prop :=
  ∀ type length, Parser.readHeader suffix = some (type, length) → length.toNat ≤ 2 ^ 32 - 6

/-- The header of a null announces no data. -/
def Bare (suffix : Bytes) : Prop :=
  ∀ length, Parser.readHeader suffix = some (MessageType.nullValue.toByte, length) → length = 0

/-- The parser gets to this header within the first `count` messages of the buffer. -/
def HeaderWithin (buffer : Bytes) (count : Nat) (suffix : Bytes) : Prop :=
  ∃ elems middle, Takes buffer elems middle ∧ elems.length < count ∧ HeaderAt middle suffix

/-! ### Headers -/

theorem headerWithin_succ {buffer middle suffix : Bytes} {msg : Message}
    (takes : Takes buffer [msg] middle) (count : Nat) :
    HeaderWithin buffer (count + 1) suffix ↔
      HeaderAt buffer suffix ∨ HeaderWithin middle count suffix := by
  constructor
  · rintro ⟨elems, last, taken, fewer, reached⟩
    cases elems with
    | nil =>
      cases taken
      exact .inl reached
    | cons elem elems =>
      obtain ⟨next, first, later⟩ := taken.head
      obtain ⟨-, rfl⟩ := takes_unique takes first
      exact .inr ⟨elems, last, later, Nat.lt_of_succ_lt_succ fewer, reached⟩
  · rintro (reached | ⟨elems, last, taken, fewer, reached⟩)
    · exact ⟨[], buffer, .done buffer, Nat.succ_pos count, reached⟩
    · exact ⟨msg :: elems, last, takes.trans taken, Nat.succ_lt_succ fewer, reached⟩

theorem headerWithin_one {buffer middle suffix : Bytes} {msg : Message}
    (takes : Takes buffer [msg] middle) :
    HeaderWithin buffer 1 suffix ↔ HeaderAt buffer suffix := by
  rw [headerWithin_succ takes 0]
  simp [HeaderWithin]

/-- The headers of an array are its own and those of its elements. -/
theorem headerAt_array {buffer suffix : Bytes} {count : UInt32}
    (header : Parser.readHeader buffer = some (MessageType.array.toByte, count)) :
    HeaderAt buffer suffix ↔
      suffix = buffer ∨ HeaderWithin (buffer.drop 5) count.toNat suffix := by
  constructor
  · intro reached
    cases reached with
    | here => exact .inl rfl
    | inside count' elems other takes fewer later =>
      obtain rfl : count' = count := by simpa [header] using other.symm
      exact .inr ⟨elems, _, takes, fewer, later⟩
  · rintro (rfl | ⟨elems, middle, takes, fewer, later⟩)
    · exact .here _
    · exact .inside count elems header takes fewer later

theorem headerAt_flat {buffer suffix : Bytes} {type : MessageType} {length : UInt32}
    (header : Parser.readHeader buffer = some (type.toByte, length)) (flat : type ≠ .array) :
    HeaderAt buffer suffix ↔ suffix = buffer := by
  constructor
  · intro reached
    cases reached with
    | here => rfl
    | inside count elems other =>
      have same : type.toByte = MessageType.array.toByte := by simp_all
      have array := congrArg MessageType.ofByte same
      simp [flat] at array
  · rintro rfl
    exact .here _

theorem shortFields_flat {buffer : Bytes} (type : MessageType) {length : UInt32}
    (header : Parser.readHeader buffer = some (type.toByte, length)) (flat : type ≠ .array)
    (short : length.toNat ≤ 2 ^ 32 - 6) : Parser.ShortFields buffer := by
  intro suffix reached byte other header'
  obtain rfl := (headerAt_flat header flat).mp reached
  obtain ⟨-, rfl⟩ : _ ∧ length = other := by simpa [header] using header'
  exact short

/-! ### Frames -/

/-- A front of the buffer, with the bytes that follow its header. -/
theorem exists_frame {buffer : Bytes} {type : MessageType} {length : UInt32}
    (header : Parser.readHeader buffer = some (type.toByte, length)) {count : Nat}
    (enough : 5 + count ≤ buffer.length) :
    ∃ data : Bytes, data.length = count ∧ (buffer.take (5 + count)).drop 5 = data ∧
      buffer = frame type length data ++ buffer.drop (5 + count) := by
  refine ⟨(buffer.drop 5).take count, ?_, List.take_drop.symm, ?_⟩
  · rw [List.length_take, List.length_drop]
    omega
  · rw [frame_append, ← List.drop_drop, List.take_append_drop]
    exact readHeader_eq_some header

theorem integerBytes_eq (val : Int64) :
    integerBytes val =
      (List.range 8).map fun k => UInt8.ofBitVec (LittleEndian.byteAt val.toBitVec k) := by
  have byte := LittleEndian.sshiftRight_byte val.toBitVec
  simp only [List.range, List.range.loop, List.map, ← byte 0 (by omega), ← byte 1 (by omega),
    ← byte 2 (by omega), ← byte 3 (by omega), ← byte 4 (by omega), ← byte 5 (by omega),
    ← byte 6 (by omega), ← byte 7 (by omega)]
  rfl

theorem toBitVec_integerValue (data : Bytes) :
    (Parser.integerValue data).toBitVec =
      LittleEndian.assemble 64 (fun k => (data.getD k 0).toBitVec) 8 := by
  simp only [LittleEndian.assemble_succ]
  rfl

/-- Eight bytes are written as they were read. -/
theorem integerBytes_integerValue {data : Bytes} (length : data.length = 8) :
    integerBytes (Parser.integerValue data) = data := by
  have byte : ∀ k < 8, UInt8.ofBitVec
      (LittleEndian.byteAt (Parser.integerValue data).toBitVec k) = data.getD k 0 := by
    intro k listed
    rw [toBitVec_integerValue, LittleEndian.byteAt_assemble _ (le_refl _) listed]
  rw [integerBytes_eq]
  apply List.ext_getElem
  · simp [length]
  · intro k inside inside'
    simp [byte k (by omega), inside']

theorem serialize_array (elems : List Message) :
    (makeArray (elems.map some)).serialize =
      frame .array (UInt32.ofNat elems.length) (serializeElements (elems.map some)) := by
  rw [makeArray, serialize, List.length_map]

/-- A header of another type announces no data of a null. -/
theorem bare_of_header {buffer : Bytes} {type : MessageType} {length : UInt32}
    (header : Parser.readHeader buffer = some (type.toByte, length)) (other : type ≠ .nullValue) :
    Bare buffer := by
  intro announced null
  have same : type.toByte = MessageType.nullValue.toByte := by simp_all
  have named := congrArg MessageType.ofByte same
  simp only [MessageType.ofByte_toByte, Option.some.injEq] at named
  exact absurd named other

/-! ### Messages -/

/-- One message at the front: its frame is as long as what is taken, and is what is taken when no
null inside it announces data. -/
structure Front (buffer middle frame : Bytes) (bare : Prop) (front : Bytes) : Prop where
  whole : buffer = front ++ middle
  length : front.length = frame.length
  canonical : front = frame ↔ bare

/-- The frames of two neighbours are one frame. -/
theorem Front.append {buffer middle rest first second head tail : Bytes} {bare bare' : Prop}
    (here : Front buffer middle first bare head) (later : Front middle rest second bare' tail) :
    Front buffer rest (first ++ second) (bare ∧ bare') (head ++ tail) := by
  refine ⟨?_, ?_, ?_⟩
  · rw [here.whole, later.whole, List.append_assoc]
  · rw [List.length_append, List.length_append, here.length, later.length]
  · rw [← here.canonical, ← later.canonical]
    exact ⟨fun same => List.append_inj same here.length, fun ⟨same, same'⟩ => by rw [same, same']⟩

/-- A frame without an array inside. -/
theorem front_flat {buffer : Bytes} {type : MessageType} {length : UInt32}
    (header : Parser.readHeader buffer = some (type.toByte, length)) {count : Nat}
    (enough : 5 + count ≤ buffer.length) (flat : type ≠ .array) (frame' : Bytes)
    (same : frame'.length = 5 + count)
    (canonical : frame type length ((buffer.take (5 + count)).drop 5) = frame' ↔ Bare buffer) :
    ∃ front, Front buffer (buffer.drop (5 + count)) frame'
      (∀ suffix, HeaderAt buffer suffix → Bare suffix) front := by
  obtain ⟨data, counted, rfl, whole⟩ := exists_frame header enough
  refine ⟨_, whole, ?_, ?_⟩
  · rw [length_frame, counted, same]
  · simp [canonical, headerAt_flat header flat]

theorem serialize_text {type : MessageType} (isText : type.isText = true) (str : Bytes) :
    (Message.string type str).serialize = frame type (UInt32.ofNat str.length) str := by
  cases type with
  | simpleString | errorMsg | bulkString => simp [serialize, serializeFlat, getType, asString]
  | _ => simp [MessageType.isText] at isText

section Fronts

variable {buffer : Bytes} {length : UInt32}

theorem front_text {type : MessageType} (isText : type.isText = true)
    (header : Parser.readHeader buffer = some (type.toByte, length))
    (range : 5 + length.toNat ≤ buffer.length) :
    ∃ front, Front buffer (buffer.drop (5 + length.toNat))
      (Message.string type ((buffer.take (5 + length.toNat)).drop 5)).serialize
      (∀ suffix, HeaderAt buffer suffix → Bare suffix) front := by
  have announced : ((buffer.take (5 + length.toNat)).drop 5).length = length.toNat := by
    simp only [List.length_drop, List.length_take]
    omega
  have flat : type ≠ .array := by
    rintro rfl
    simp [MessageType.isText] at isText
  have bare : Bare buffer := by
    apply bare_of_header header
    rintro rfl
    simp [MessageType.isText] at isText
  apply front_flat header range flat
  · simp [serialize_text isText, announced]
  · simp [serialize_text isText, announced, bare]

theorem front_integer
    (header : Parser.readHeader buffer = some (MessageType.integer.toByte, 8))
    (enough : 13 ≤ buffer.length) :
    ∃ front, Front buffer (buffer.drop 13)
      (makeInteger (Parser.integerValue ((buffer.take 13).drop 5))).serialize
      (∀ suffix, HeaderAt buffer suffix → Bare suffix) front := by
  have announced : ((buffer.take 13).drop 5).length = 8 := by
    simp only [List.length_drop, List.length_take]
    omega
  have written : (makeInteger (Parser.integerValue ((buffer.take 13).drop 5))).serialize =
      frame .integer 8 ((buffer.take 13).drop 5) := by
    simp [makeInteger, serialize, serializeFlat, getType, asInteger,
      integerBytes_integerValue announced]
  have bare : Bare buffer := bare_of_header header (by decide)
  apply front_flat header (show 5 + 8 ≤ buffer.length from enough) (by decide)
  · simp [written, announced]
  · simp [written, bare]

theorem front_null
    (header : Parser.readHeader buffer = some (MessageType.nullValue.toByte, length)) :
    ∃ front, Front buffer (buffer.drop 5) makeNull.serialize
      (∀ suffix, HeaderAt buffer suffix → Bare suffix) front := by
  have written : makeNull.serialize = frame .nullValue 0 [] := by
    simp [makeNull, serialize, serializeFlat, getType]
  apply front_flat header (show 5 + 0 ≤ buffer.length from readHeader_some header) (by decide)
  · simp [written]
  · have nothing : (buffer.take 5).drop 5 = [] := by simp
    rw [Nat.add_zero, nothing, written]
    constructor
    · -- The header that is written reads back as the header that was read.
      intro same other null
      obtain rfl : length = other := by simpa [header] using null
      have fields := congrArg (fun bytes => Parser.readHeader (bytes ++ [])) same
      simpa only [readHeader_frame, Option.some.injEq, Prod.mk.injEq, true_and] using fields
    · intro bare
      rw [bare length header]

end Fronts

theorem front_cons {buffer middle rest : Bytes} {msg : Message} {msgs : List Message}
    (taken : Takes buffer [msg] middle) {head tail : Bytes}
    (here : Front buffer middle msg.serialize (∀ suffix, HeaderAt buffer suffix → Bare suffix) head)
    (later : Front middle rest (serializeElements (msgs.map some))
      (∀ suffix, HeaderWithin middle msgs.length suffix → Bare suffix) tail) :
    Front buffer rest (serializeElements ((msg :: msgs).map some))
      (∀ suffix, HeaderWithin buffer (msg :: msgs).length suffix → Bare suffix) (head ++ tail) := by
  obtain ⟨whole, length, canonical⟩ := here.append later
  refine ⟨whole, length, canonical.trans ?_⟩
  simp only [List.length_cons, headerWithin_succ taken, or_imp, forall_and]

/-- The frame of an array is its header and the frames of its elements. -/
theorem front_array {buffer middle : Bytes} {elems : List Message} {count : UInt32}
    (header : Parser.readHeader buffer = some (MessageType.array.toByte, count))
    (counted : elems.length = count.toNat) {inner : Bytes}
    (inside : Front (buffer.drop 5) middle (serializeElements (elems.map some))
      (∀ suffix, HeaderWithin (buffer.drop 5) count.toNat suffix → Bare suffix) inner) :
    Front buffer middle (makeArray (elems.map some)).serialize
      (∀ suffix, HeaderAt buffer suffix → Bare suffix) (frame .array count inner) := by
  obtain ⟨whole, length, canonical⟩ := inside
  have bare : Bare buffer := bare_of_header header (by decide)
  rw [serialize_array, counted, UInt32.ofNat_toNat]
  refine ⟨?_, by simp [length], ?_⟩
  · rw [frame_append, ← whole]
    exact readHeader_eq_some header
  · simp only [headerAt_array header, or_imp, forall_and, forall_eq, bare, true_and, ← canonical]
    simp [frame]

theorem short_cons {buffer middle : Bytes} {msg : Message} {msgs : List Message}
    (taken : Takes buffer [msg] middle)
    (short : ∀ suffix, HeaderWithin buffer (msg :: msgs).length suffix → Short suffix) :
    (∀ suffix, HeaderAt buffer suffix → Short suffix) ∧
      ∀ suffix, HeaderWithin middle msgs.length suffix → Short suffix := by
  simpa only [List.length_cons, headerWithin_succ taken, or_imp, forall_and] using short

/-- What is taken, for the messages at the front of a buffer. -/
theorem takes_front {buffer rest : Bytes} {msgs : List Message} (takes : Takes buffer msgs rest)
    (short : ∀ suffix, HeaderWithin buffer msgs.length suffix → Short suffix) :
    ∃ front, Front buffer rest (serializeElements (msgs.map some))
      (∀ suffix, HeaderWithin buffer msgs.length suffix → Bare suffix) front := by
  induction takes with
  | done buffer =>
    refine ⟨[], rfl, rfl, ?_⟩
    simp [serializeElements, HeaderWithin]
  | @text buffer msgs rest type length header isText enough range later ih =>
    have taken := Takes.text type length header isText enough range (.done _)
    obtain ⟨shortHere, shortLater⟩ := short_cons taken short
    -- The count that is consumed does not wrap.
    have sum := Parser.toNat_five_add_of_short (shortHere buffer (.here buffer) _ _ header)
    rw [sum] at taken ih shortLater
    obtain ⟨head, first⟩ := front_text isText header range
    obtain ⟨tail, more⟩ := ih shortLater
    exact ⟨_, front_cons taken first more⟩
  | integer header enough later ih =>
    have taken := Takes.integer header enough (.done _)
    obtain ⟨head, first⟩ := front_integer header enough
    obtain ⟨tail, more⟩ := ih (short_cons taken short).2
    exact ⟨_, front_cons taken first more⟩
  | null length header later ih =>
    have taken := Takes.null length header (.done _)
    obtain ⟨head, first⟩ := front_null header
    obtain ⟨tail, more⟩ := ih (short_cons taken short).2
    exact ⟨_, front_cons taken first more⟩
  | @array buffer middle msgs rest count elems header counted inner later ih ih' =>
    have taken := Takes.array count elems header counted inner (.done _)
    obtain ⟨shortHere, shortLater⟩ := short_cons taken short
    obtain ⟨front, inside⟩ := ih fun suffix within =>
      shortHere suffix ((headerAt_array header).mpr (.inr (counted ▸ within)))
    obtain ⟨tail, more⟩ := ih' shortLater
    rw [counted] at inside
    exact ⟨_, front_cons taken (front_array header counted inside) more⟩

/-! ### The parser -/

/-- **Encoding undoes decoding exactly when no null announces data.** What the parser takes for a
message is the frame of that message as long as every null header that it gets to has the length
0. -/
theorem parseMessage_canonical_iff {buffer rest : Bytes} {msg : Message}
    (short : Parser.ShortFields buffer)
    (parsed : Parser.parseMessage buffer = (.message msg, rest)) :
    buffer = msg.serialize ++ rest ↔ ∀ suffix, HeaderAt buffer suffix → Bare suffix := by
  have takes := Parser.takes_of_parseMessage parsed
  obtain ⟨front, whole, -, canonical⟩ := takes_front takes fun suffix within =>
    short suffix ((headerWithin_one takes).mp within)
  have frames : serializeElements ([msg].map some) = msg.serialize := by
    simp [serializeElements]
  have headers (suffix : Bytes) : HeaderWithin buffer [msg].length suffix ↔
    HeaderAt buffer suffix :=
    headerWithin_one takes
  simp only [headers, frames] at canonical
  rw [← canonical]
  constructor
  · intro same
    exact List.append_cancel_right (whole.symm.trans same)
  · rintro rfl
    exact whole

theorem parseMessage_canonical_iff_null :
    Parser.ShortFields [0x06, 0, 0, 0, 0, 0x07] ∧
      Parser.parseMessage [0x06, 0, 0, 0, 0, 0x07] = (.message makeNull, [0x07]) ∧
      ([0x06, 0, 0, 0, 0, 0x07] = makeNull.serialize ++ [0x07] ↔
        ∀ suffix, HeaderAt [0x06, 0, 0, 0, 0, 0x07] suffix → Bare suffix) := by
  have short : Parser.ShortFields [0x06, 0, 0, 0, 0, 0x07] :=
    shortFields_flat .nullValue rfl (by decide) (by decide)
  exact ⟨short, rfl, parseMessage_canonical_iff short rfl⟩

/-- A null that announces one byte, which the parser leaves in front of what follows. -/
theorem null_with_data_not_canonical : ¬ ∀ (buffer rest : Bytes) (msg : Message),
    Parser.ShortFields buffer → Parser.parseMessage buffer = (.message msg, rest) →
      buffer = msg.serialize ++ rest := by
  intro canonical
  have same := canonical [0x06, 1, 0, 0, 0, 0x61] [0x61] makeNull
    (shortFields_flat .nullValue rfl (by decide) (by decide)) rfl
  simp [makeNull, serialize, serializeFlat, getType, frame, lengthBytes] at same

end ScuffedRedis.Protocol
