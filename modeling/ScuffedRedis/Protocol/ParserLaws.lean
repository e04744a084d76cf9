import ScuffedRedis.Foundation.LittleEndian
import ScuffedRedis.Protocol.Parser

/-!
# What a call of the parser takes from its buffer

`parseMessage` satisfies the recursion of the source, without a bound on the depth.
`Takes` describes the messages taken from the front of a buffer, and
`parseMessage_message_iff` says that the parser takes exactly those.
-/
namespace ScuffedRedis.Protocol

open Foundation

/-! ### Words and headers -/

/-- The length field is put together from its four bytes. -/
theorem toBitVec_lengthField (byte : Nat → UInt8) :
    (Parser.lengthField (byte 0) (byte 1) (byte 2) (byte 3)).toBitVec =
      LittleEndian.assemble 32 (fun k => (byte k).toBitVec) 4 := by
  simp only [LittleEndian.assemble_succ, Parser.lengthField, UInt32.toBitVec_or,
    UInt32.toBitVec_shiftLeft, UInt8.toBitVec_toUInt32, UInt32.toBitVec_ofNat]
  simp [LittleEndian.assemble]

theorem lengthBytes_eq (len : UInt32) :
    lengthBytes len =
      (List.range 4).map fun k => UInt8.ofBitVec (LittleEndian.byteAt len.toBitVec k) := by
  have byte := LittleEndian.ushiftRight_byte len.toBitVec
  simp only [List.range, List.range.loop, List.map, ← byte 0 (by omega), ← byte 1 (by omega),
    ← byte 2 (by omega), ← byte 3 (by omega)]
  rfl

theorem lengthField_lengthBytes (len : UInt32) :
    Parser.lengthField (len &&& 0xFF).toUInt8 (len >>> 8 &&& 0xFF).toUInt8
      (len >>> 16 &&& 0xFF).toUInt8 (len >>> 24 &&& 0xFF).toUInt8 = len := by
  have bytes := lengthBytes_eq len
  simp only [lengthBytes, List.range, List.range.loop, List.map, List.cons.injEq, and_true] at bytes
  obtain ⟨b0, b1, b2, b3⟩ := bytes
  rw [b0, b1, b2, b3]
  apply UInt32.toBitVec_inj.mp
  exact (toBitVec_lengthField fun k => UInt8.ofBitVec (LittleEndian.byteAt len.toBitVec k)).trans
    (LittleEndian.assemble_byteAt len.toBitVec 4 rfl)

theorem lengthBytes_lengthField (b0 b1 b2 b3 : UInt8) :
    lengthBytes (Parser.lengthField b0 b1 b2 b3) = [b0, b1, b2, b3] := by
  have word := toBitVec_lengthField fun k => [b0, b1, b2, b3].getD k 0
  have byte := fun k (listed : k < 4) =>
    LittleEndian.byteAt_assemble (w := 32) (fun k => ([b0, b1, b2, b3].getD k 0).toBitVec)
      (le_refl _) listed
  change (Parser.lengthField b0 b1 b2 b3).toBitVec = _ at word
  rw [lengthBytes_eq, word]
  simp only [List.range, List.range.loop, List.map, byte 0 (by omega), byte 1 (by omega),
    byte 2 (by omega), byte 3 (by omega)]
  rfl

@[simp] theorem length_lengthBytes (len : UInt32) : (lengthBytes len).length = 4 := rfl

@[simp] theorem length_integerBytes (val : Int64) : (integerBytes val).length = 8 := rfl

@[simp] theorem length_frame (type : MessageType) (len : UInt32) (data : Bytes) :
    (frame type len data).length = 5 + data.length := by
  simp [frame]
  omega

theorem integerValue_integerBytes (val : Int64) :
    Parser.integerValue (integerBytes val) = val := by
  have word := LittleEndian.assemble_byteAt val.toBitVec 8 rfl
  have byte : ∀ k, (k + 1) * 8 ≤ 64 → LittleEndian.byteAt val.toBitVec k =
      (val.toBitVec.sshiftRight (k * 8) &&& 255#64).setWidth 8 := fun k inside =>
    (LittleEndian.sshiftRight_byte val.toBitVec k inside).symm
  simp only [LittleEndian.assemble_succ] at word
  rw [byte 0 (by omega), byte 1 (by omega), byte 2 (by omega), byte 3 (by omega),
    byte 4 (by omega), byte 5 (by omega), byte 6 (by omega), byte 7 (by omega)] at word
  apply Int64.toBitVec_inj.mp
  exact word

@[simp] theorem readHeader_frame (type : MessageType) (len : UInt32) (data rest : Bytes) :
    Parser.readHeader (frame type len data ++ rest) = some (type.toByte, len) := by
  simp only [frame, lengthBytes, List.cons_append, Parser.readHeader, lengthField_lengthBytes]

theorem readHeader_some {buffer : Bytes} {type : UInt8} {length : UInt32}
    (header : Parser.readHeader buffer = some (type, length)) : 5 ≤ buffer.length := by
  unfold Parser.readHeader at header
  split at header
  · simp
  · cases header

/-- A buffer with a header is its five bytes and the rest. -/
theorem readHeader_eq_some {buffer : Bytes} {type : UInt8} {length : UInt32}
    (header : Parser.readHeader buffer = some (type, length)) :
    buffer = type :: (lengthBytes length ++ buffer.drop 5) := by
  unfold Parser.readHeader at header
  split at header
  · cases header
    rw [lengthBytes_lengthField]
    rfl
  · cases header

theorem frame_append (type : MessageType) (len : UInt32) (data rest : Bytes) :
    frame type len data ++ rest = type.toByte :: (lengthBytes len ++ (data ++ rest)) := by
  rw [frame, List.cons_append, List.append_assoc]

theorem consumeBytes_eq (buffer : Bytes) (count : Nat) :
    Parser.consumeBytes buffer count = buffer.drop count := by
  unfold Parser.consumeBytes
  split
  next short => exact (List.drop_eq_nil_of_le short).symm
  next => rfl

theorem copyRange_eq_some {buffer : Bytes} {start stop : Nat} {str : Bytes} :
    Parser.copyRange buffer start stop = some str ↔
      stop ≤ buffer.length ∧ (buffer.take stop).drop start = str := by
  unfold Parser.copyRange
  split <;> simp_all

/-! ### The recursion of `parse_message` -/

namespace Parser

/-- The 32-bit sum is the whole sum. -/
theorem toNat_five_add_of_short {length : UInt32} (short : length.toNat ≤ 2 ^ 32 - 6) :
    (5 + length).toNat = 5 + length.toNat := by
  rw [UInt32.toNat_add]
  exact Nat.mod_eq_of_lt (by change 5 + length.toNat < 2 ^ 32; omega)

/-- The announced length of a text that fits, and the sum that is made of it. -/
theorem toNat_announced {count : Nat} (fits : count ≤ 2 ^ 32 - 6) :
    (UInt32.ofNat count).toNat = count ∧ (5 + UInt32.ofNat count).toNat = 5 + count := by
  have announced : (UInt32.ofNat count).toNat = count :=
    UInt32.toNat_ofNat_of_lt' (Nat.lt_of_le_of_lt fits (by decide))
  refine ⟨announced, ?_⟩
  rw [toNat_five_add_of_short (by rwa [announced]), announced]

theorem parseElements_length (parse : Bytes → ParseResult × Bytes)
    (shrinks : ∀ buffer, (parse buffer).2.length ≤ buffer.length) (count : Nat)
    (array : List (Option Message)) (buffer : Bytes) :
    (parseElements parse count array buffer).2.length ≤ buffer.length := by
  induction count generalizing array buffer with
  | zero => exact Nat.le_refl _
  | succ count ih =>
    have first := shrinks buffer
    unfold parseElements
    split
    next elem rest called =>
      rw [called] at first
      exact Nat.le_trans (ih _ rest) first
    next rest called => rwa [called] at first
    next rest called => rwa [called] at first

theorem parseText_length (make : Bytes → Message) (length : UInt32) (buffer : Bytes) :
    (parseText make length buffer).2.length ≤ buffer.length := by
  unfold parseText
  split
  · split
    · simp [consumeBytes_eq]
    · exact Nat.le_refl _
  · exact Nat.le_refl _

theorem parseBody_length (parse : Bytes → ParseResult × Bytes)
    (shrinks : ∀ buffer, (parse buffer).2.length ≤ buffer.length) (buffer : Bytes) :
    (parseBody parse buffer).2.length ≤ buffer.length := by
  unfold parseBody
  split
  · exact Nat.le_refl _
  · split
    · exact parseText_length _ _ _
    · exact parseText_length _ _ _
    · unfold parseInteger
      split
      · exact Nat.le_refl _
      · split <;> simp [consumeBytes_eq]
    · exact parseText_length _ _ _
    · refine Nat.le_trans (parseElements_length parse shrinks _ _ _) ?_
      simp [consumeBytes_eq]
    · simp [consumeBytes_eq]
    · simp

theorem parseNested_length (depth : Nat) (buffer : Bytes) :
    (parseNested depth buffer).2.length ≤ buffer.length := by
  induction depth generalizing buffer with
  | zero => exact Nat.le_refl _
  | succ depth ih => exact parseBody_length _ ih buffer

/-- Parsing never adds to the buffer. -/
theorem parseMessage_length (buffer : Bytes) :
    (parseMessage buffer).2.length ≤ buffer.length :=
  parseNested_length _ buffer

private theorem parseElements_congr (parse parse' : Bytes → ParseResult × Bytes)
    (shrinks : ∀ buffer, (parse buffer).2.length ≤ buffer.length) (bound : Nat)
    (same : ∀ buffer : Bytes, buffer.length ≤ bound → parse buffer = parse' buffer) (count : Nat)
    (array : List (Option Message)) (buffer : Bytes) (short : buffer.length ≤ bound) :
    parseElements parse count array buffer = parseElements parse' count array buffer := by
  induction count generalizing array buffer with
  | zero => rfl
  | succ count ih =>
    have first := shrinks buffer
    unfold parseElements
    rw [← same buffer short]
    split
    next elem rest called =>
      -- What the call leaves is within the bound again.
      rw [called] at first
      exact ih _ rest (Nat.le_trans first short)
    · rfl
    · rfl

/-- Two functions that agree on the shorter buffers serve a call equally well. -/
private theorem parseBody_congr (parse parse' : Bytes → ParseResult × Bytes)
    (shrinks : ∀ buffer, (parse buffer).2.length ≤ buffer.length) (buffer : Bytes)
    (same : ∀ rest : Bytes, rest.length < buffer.length → parse rest = parse' rest) :
    parseBody parse buffer = parseBody parse' buffer := by
  unfold parseBody
  split
  · rfl
  next type length header =>
    have enough := readHeader_some header
    split
    -- Only an array calls the function, on what follows its header.
    case h_5 =>
      apply parseElements_congr parse parse' shrinks (buffer.length - 5)
      · intro rest short
        exact same rest (by omega)
      · simp [consumeBytes_eq]
    all_goals rfl

private theorem parseNested_stable (depth depth' : Nat) (buffer : Bytes)
    (enough : buffer.length < depth) (enough' : buffer.length < depth') :
    parseNested depth buffer = parseNested depth' buffer := by
  induction depth generalizing depth' buffer with
  | zero => omega
  | succ depth ih =>
    cases depth' with
    | zero => omega
    | succ depth' =>
      apply parseBody_congr _ _ (parseNested_length depth)
      intro rest shorter
      exact ih depth' rest (by omega) (by omega)

/-- `parse_message` as the source has it: its body, with itself for the recursive calls. -/
theorem parseMessage_eq (buffer : Bytes) : parseMessage buffer = parseBody parseMessage buffer := by
  apply parseBody_congr _ _ (parseNested_length buffer.length)
  intro rest shorter
  exact parseNested_stable _ _ rest shorter (Nat.lt_succ_self _)

end Parser

/-! ### The messages at the front of a buffer -/

/-- The types whose data is a string. -/
def MessageType.isText : MessageType → Bool
  | .simpleString | .errorMsg | .bulkString => true
  | _ => false

/-- `Takes buffer msgs rest`: the messages `msgs`, one after another, can be taken from the
front of `buffer`, and `rest` is what remains. A string is taken from its whole range,
while the count that leaves the buffer is reduced to 32 bits. -/
inductive Takes : Bytes → List Message → Bytes → Prop
  | done (buffer) : Takes buffer [] buffer
  | text {buffer msgs rest} (type : MessageType) (length : UInt32) :
      Parser.readHeader buffer = some (type.toByte, length) → type.isText = true →
      (5 + length).toNat ≤ buffer.length → 5 + length.toNat ≤ buffer.length →
      Takes (buffer.drop (5 + length).toNat) msgs rest →
      Takes buffer (.string type ((buffer.take (5 + length.toNat)).drop 5) :: msgs) rest
  | integer {buffer msgs rest} :
      Parser.readHeader buffer = some (MessageType.integer.toByte, 8) → 13 ≤ buffer.length →
      Takes (buffer.drop 13) msgs rest →
      Takes buffer
        (Message.makeInteger (Parser.integerValue ((buffer.take 13).drop 5)) :: msgs) rest
  | null {buffer msgs rest} (length : UInt32) :
      Parser.readHeader buffer = some (MessageType.nullValue.toByte, length) →
      Takes (buffer.drop 5) msgs rest →
      Takes buffer (Message.makeNull :: msgs) rest
  | array {buffer middle msgs rest} (count : UInt32) (elems : List Message) :
      Parser.readHeader buffer = some (MessageType.array.toByte, count) →
      elems.length = count.toNat → Takes (buffer.drop 5) elems middle →
      Takes middle msgs rest →
      Takes buffer (Message.makeArray (elems.map some) :: msgs) rest

theorem Takes.trans {buffer middle rest : Bytes} {msgs more : List Message}
    (first : Takes buffer msgs middle) (second : Takes middle more rest) :
    Takes buffer (msgs ++ more) rest := by
  induction first with
  | done => exact second
  | text type length header text enough range _ ih =>
    exact .text type length header text enough range (ih second)
  | integer header enough _ ih => exact .integer header enough (ih second)
  | null length header _ ih => exact .null length header (ih second)
  | array count elems header counted inner _ _ ih =>
    exact .array count elems header counted inner (ih second)

theorem Takes.length_le {buffer rest : Bytes} {msgs : List Message}
    (takes : Takes buffer msgs rest) : rest.length ≤ buffer.length := by
  induction takes with
  | done => exact Nat.le_refl _
  | text _ _ _ _ _ _ _ ih | integer _ _ _ ih | null _ _ _ ih =>
    rw [List.length_drop] at ih
    omega
  | array _ _ _ _ _ _ inner ih =>
    rw [List.length_drop] at inner
    omega

theorem readHeader_append {buffer : Bytes} {fields : UInt8 × UInt32}
    (header : Parser.readHeader buffer = some fields) (more : Bytes) :
    Parser.readHeader (buffer ++ more) = some fields := by
  unfold Parser.readHeader at header
  split at header
  · exact header
  · cases header

theorem readHeader_append_of_le {buffer : Bytes} (long : 5 ≤ buffer.length) (more : Bytes) :
    Parser.readHeader (buffer ++ more) = Parser.readHeader buffer := by
  match buffer, long with
  | _ :: _ :: _ :: _ :: _ :: _, _ => rfl

/-- Bytes that follow do not change what is taken. -/
theorem Takes.append {buffer rest : Bytes} {msgs : List Message} (takes : Takes buffer msgs rest)
    (more : Bytes) : Takes (buffer ++ more) msgs (rest ++ more) := by
  -- What is read lies in front of the added bytes, and the rest is followed by them.
  induction takes with
  | done => exact .done _
  | @text buffer msgs rest type length header text enough range _ ih =>
    have taken : (buffer ++ more).take (5 + length.toNat) = buffer.take (5 + length.toNat) :=
      List.take_append_of_le_length range
    rw [← taken]
    refine .text type length (readHeader_append header more) text ?_ ?_ ?_
    · rw [List.length_append]
      omega
    · rw [List.length_append]
      omega
    · rw [List.drop_append_of_le_length enough]
      exact ih
  | @integer buffer msgs rest header enough _ ih =>
    have taken : (buffer ++ more).take 13 = buffer.take 13 := List.take_append_of_le_length enough
    rw [← taken]
    refine .integer (readHeader_append header more) ?_ ?_
    · rw [List.length_append]
      omega
    · rw [List.drop_append_of_le_length enough]
      exact ih
  | null length header _ ih =>
    refine .null length (readHeader_append header more) ?_
    rw [List.drop_append_of_le_length (readHeader_some header)]
    exact ih
  | array count elems header counted _ _ ih later =>
    refine .array count elems (readHeader_append header more) counted ?_ later
    rw [List.drop_append_of_le_length (readHeader_some header)]
    exact ih

/-- The messages of a sequence are taken one at a time. -/
theorem Takes.head {buffer rest : Bytes} {msg : Message} {msgs : List Message}
    (takes : Takes buffer (msg :: msgs) rest) :
    ∃ middle, Takes buffer [msg] middle ∧ Takes middle msgs rest := by
  cases takes with
  | text type length header text enough range later =>
    exact ⟨_, .text type length header text enough range (.done _), later⟩
  | integer header enough later => exact ⟨_, .integer header enough (.done _), later⟩
  | null length header later => exact ⟨_, .null length header (.done _), later⟩
  | array count elems header counted inner later =>
    exact ⟨_, .array count elems header counted inner (.done _), later⟩

/-- Behind the header of an array only an array is taken, with its elements after the header. -/
theorem Takes.array_inv {buffer rest : Bytes} {msg : Message} {count : UInt32}
    (takes : Takes buffer [msg] rest)
    (header : Parser.readHeader buffer = some (MessageType.array.toByte, count)) :
    ∃ elems : List Message, msg = Message.makeArray (elems.map some) ∧
      elems.length = count.toNat ∧ Takes (buffer.drop 5) elems rest := by
  -- The type byte rules out all but the last case.
  cases takes with
  | text type length other isText =>
    rw [header] at other
    have array := congrArg MessageType.ofByte (Prod.mk.inj (Option.some.inj other)).1
    rw [MessageType.ofByte_toByte, MessageType.ofByte_toByte] at array
    obtain rfl := Option.some.inj array
    cases isText
  | integer other =>
    rw [header] at other
    exact absurd (Prod.mk.inj (Option.some.inj other)).1 (by decide)
  | null length other =>
    rw [header] at other
    exact absurd (Prod.mk.inj (Option.some.inj other)).1 (by decide)
  | array count' elems other counted inner later =>
    rw [header] at other
    obtain rfl := (Prod.mk.inj (Option.some.inj other)).2
    cases later
    exact ⟨elems, rfl, counted, inner⟩

namespace Parser

/-- The three string parsers differ only in the type of the message they make. -/
theorem parseBody_text (parse : Bytes → ParseResult × Bytes) {buffer : Bytes}
    {type : MessageType} {length : UInt32} (header : readHeader buffer = some (type.toByte, length))
    (text : type.isText = true) :
    parseBody parse buffer = parseText (.string type) length buffer := by
  unfold parseBody
  rw [header]
  cases type <;> first | rfl | cases text

theorem parseText_message {make : Bytes → Message} {length : UInt32} {buffer : Bytes}
    (enough : (5 + length).toNat ≤ buffer.length) (range : 5 + length.toNat ≤ buffer.length) :
    parseText make length buffer =
      (.message (make ((buffer.take (5 + length.toNat)).drop 5)),
        buffer.drop (5 + length).toNat) := by
  simp only [parseText, hasBytes, decide_eq_true enough, copyRange, if_pos range, consumeBytes_eq,
    if_true]

theorem parseBody_integer (parse : Bytes → ParseResult × Bytes) {buffer : Bytes}
    (header : readHeader buffer = some (MessageType.integer.toByte, 8))
    (enough : 13 ≤ buffer.length) :
    parseBody parse buffer =
      (.message (Message.makeInteger (integerValue ((buffer.take 13).drop 5))),
        buffer.drop 13) := by
  simp [parseBody, header, parseInteger, hasBytes, copyRange, enough, consumeBytes_eq]

theorem parseBody_null (parse : Bytes → ParseResult × Bytes) {buffer : Bytes} {length : UInt32}
    (header : readHeader buffer = some (MessageType.nullValue.toByte, length)) :
    parseBody parse buffer = (.message Message.makeNull, buffer.drop 5) := by
  simp [parseBody, header, consumeBytes_eq]

theorem parseBody_array (parse : Bytes → ParseResult × Bytes) {buffer : Bytes} {count : UInt32}
    (header : readHeader buffer = some (MessageType.array.toByte, count)) :
    parseBody parse buffer = parseElements parse count.toNat [] (buffer.drop 5) := by
  simp [parseBody, header, parseArray, consumeBytes_eq]

theorem parseElements_message {parse : Bytes → ParseResult × Bytes} {buffer rest : Bytes}
    {elem : Message} (called : parse buffer = (.message elem, rest)) (count : Nat)
    (array : List (Option Message)) :
    parseElements parse (count + 1) array buffer =
      parseElements parse count (array ++ [some elem]) rest := by
  rw [parseElements, called]

/-- The element loop reads the messages at the front of the buffer, whatever it has
already put in the array and however many more it is to read. -/
theorem parseElements_of_takes {buffer rest : Bytes} {msgs : List Message}
    (takes : Takes buffer msgs rest) (more : Nat) (array : List (Option Message)) :
    parseElements parseMessage (msgs.length + more) array buffer =
      parseElements parseMessage more (array ++ msgs.map some) rest := by
  induction takes generalizing more array with
  | done => simp
  | text type length header text enough range _ ih =>
    have called := (parseMessage_eq _).trans
      ((parseBody_text parseMessage header text).trans (parseText_message enough range))
    rw [List.length_cons, Nat.succ_add, parseElements_message called, ih]
    simp
  | integer header enough _ ih =>
    have called := (parseMessage_eq _).trans (parseBody_integer parseMessage header enough)
    rw [List.length_cons, Nat.succ_add, parseElements_message called, ih]
    simp
  | null length header _ ih =>
    have called := (parseMessage_eq _).trans (parseBody_null parseMessage header)
    rw [List.length_cons, Nat.succ_add, parseElements_message called, ih]
    simp
  | array count elems header counted _ _ inner ih =>
    have called := (parseMessage_eq _).trans (parseBody_array parseMessage header)
    -- The inner loop reads all its elements, so no more are left for it.
    have loop := inner 0 []
    rw [Nat.add_zero, counted] at loop
    rw [loop, List.nil_append, parseElements] at called
    rw [List.length_cons, Nat.succ_add, parseElements_message called, ih]
    simp

theorem parseMessage_of_takes {buffer rest : Bytes} {msg : Message}
    (takes : Takes buffer [msg] rest) : parseMessage buffer = (.message msg, rest) := by
  have loop : parseElements parseMessage 1 [] buffer =
      (.message (Message.makeArray [some msg]), rest) := parseElements_of_takes takes 0 []
  rw [parseElements] at loop
  split at loop
  next elem middle called =>
    simp only [parseElements, Prod.mk.injEq, ParseResult.message.injEq, Message.makeArray,
      Message.array.injEq, true_and] at loop
    obtain ⟨elems, rfl⟩ := loop
    simp_all
  · simp at loop
  · simp at loop

private theorem takes_of_parseElements (bound : Nat)
    (parsed : ∀ (buffer : Bytes) (msg : Message) (rest : Bytes), buffer.length ≤ bound →
      parseMessage buffer = (.message msg, rest) → Takes buffer [msg] rest)
    {count : Nat} {array : List (Option Message)} {buffer rest : Bytes} {msg : Message}
    (short : buffer.length ≤ bound)
    (loop : parseElements parseMessage count array buffer = (.message msg, rest)) :
    ∃ elems : List Message, elems.length = count ∧
      msg = Message.makeArray (array ++ elems.map some) ∧ Takes buffer elems rest := by
  induction count generalizing array buffer with
  | zero =>
    simp only [parseElements, Prod.mk.injEq, ParseResult.message.injEq] at loop
    obtain ⟨rfl, rfl⟩ := loop
    exact ⟨[], rfl, by simp, .done _⟩
  | succ count ih =>
    have first := parseMessage_length buffer
    rw [parseElements] at loop
    split at loop
    next elem middle called =>
      rw [called] at first
      -- The loop goes on with what the first element leaves, which is within the bound.
      obtain ⟨elems, counted, made, takes⟩ := ih (Nat.le_trans first short) loop
      refine ⟨elem :: elems, by simp [counted], by simp [made], ?_⟩
      exact (parsed buffer elem middle short called).trans takes
    · simp at loop
    · simp at loop

private theorem takes_of_parseText {type : MessageType} {length : UInt32} {buffer rest : Bytes}
    {msg : Message} (header : readHeader buffer = some (type.toByte, length))
    (text : type.isText = true)
    (parsed : parseText (.string type) length buffer = (.message msg, rest)) :
    Takes buffer [msg] rest := by
  unfold parseText at parsed
  split at parsed
  next enough =>
    split at parsed
    next str copied =>
      simp only [Prod.mk.injEq, ParseResult.message.injEq, consumeBytes_eq] at parsed
      obtain ⟨rfl, rfl⟩ := parsed
      obtain ⟨range, rfl⟩ := copyRange_eq_some.mp copied
      exact .text type length header text (of_decide_eq_true enough) range (.done _)
    · simp at parsed
  · simp at parsed

private theorem takes_of_parseInteger {length : UInt32} {buffer rest : Bytes} {msg : Message}
    (header : readHeader buffer = some (MessageType.integer.toByte, length))
    (parsed : parseInteger length buffer = (.message msg, rest)) : Takes buffer [msg] rest := by
  unfold parseInteger at parsed
  split at parsed
  · simp at parsed
  next fits =>
    simp only [not_or, Decidable.not_not, Bool.not_eq_false, hasBytes,
      decide_eq_true_eq] at fits
    obtain ⟨rfl, room⟩ := fits
    simp only [copyRange, if_pos room, consumeBytes_eq, Prod.mk.injEq,
      ParseResult.message.injEq] at parsed
    obtain ⟨rfl, rfl⟩ := parsed
    exact .integer header room (.done _)

/-- A message that the parser returns stood at the front of the buffer. The induction is
on the length of the buffer: elements are read from what follows the array's header. -/
theorem takes_of_parseMessage {buffer rest : Bytes} {msg : Message}
    (parsed : parseMessage buffer = (.message msg, rest)) : Takes buffer [msg] rest := by
  induction size : buffer.length using Nat.strongRecOn generalizing buffer rest msg with
  | ind size ih =>
    rw [parseMessage_eq] at parsed
    cases header : readHeader buffer with
    | none => simp [parseBody, header] at parsed
    | some fields =>
      obtain ⟨byte, length⟩ := fields
      have enough := readHeader_some header
      cases named : MessageType.ofByte byte with
      | none => simp [parseBody, header, named] at parsed
      | some type =>
        rw [MessageType.toByte_of_ofByte named] at header
        -- Each type has its own reader, and only an array calls the parser again.
        by_cases text : type.isText = true
        · rw [parseBody_text parseMessage header text] at parsed
          exact takes_of_parseText header text parsed
        · cases type with
          | simpleString | errorMsg | bulkString => exact absurd rfl text
          | integer =>
            simp only [parseBody, header, MessageType.ofByte_toByte] at parsed
            exact takes_of_parseInteger header parsed
          | array =>
            rw [parseBody_array parseMessage header] at parsed
            obtain ⟨elems, counted, rfl, takes⟩ := takes_of_parseElements
              (buffer.length - 5)
              (fun rest msg after short called => ih rest.length (by omega) called rfl) (by simp)
              parsed
            exact .array length elems header counted takes (.done _)
          | nullValue =>
            rw [parseBody_null parseMessage header] at parsed
            simp only [Prod.mk.injEq, ParseResult.message.injEq] at parsed
            obtain ⟨rfl, rfl⟩ := parsed
            exact .null length header (.done _)

/-- The parser returns exactly the message at the front of its buffer, if there is one. -/
theorem parseMessage_message_iff {buffer rest : Bytes} {msg : Message} :
    parseMessage buffer = (.message msg, rest) ↔ Takes buffer [msg] rest :=
  ⟨takes_of_parseMessage, parseMessage_of_takes⟩

end Parser

theorem takes_unique {buffer rest rest' : Bytes} {msg msg' : Message}
    (takes : Takes buffer [msg] rest) (takes' : Takes buffer [msg'] rest') :
    msg = msg' ∧ rest = rest' := by
  have same := (Parser.parseMessage_of_takes takes).symm.trans (Parser.parseMessage_of_takes takes')
  simp only [Prod.mk.injEq, ParseResult.message.injEq] at same
  exact same
end ScuffedRedis.Protocol
