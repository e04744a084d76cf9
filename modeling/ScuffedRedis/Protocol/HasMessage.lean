import ScuffedRedis.Protocol.ReadBounds

/-!
# What `has_message` foresees

`has_message` looks at one header, and at an array's it does not look further. `Foreseen` says
for which buffers it is right about the call of `parse_message` that follows.
-/
namespace ScuffedRedis.Protocol
namespace Parser

/-- No header that the parser gets to announces more than `2^32 - 6`. -/
def ShortFields (buffer : Bytes) : Prop :=
  ∀ suffix, HeaderAt buffer suffix → ∀ type length, readHeader suffix = some (type, length) →
    length.toNat ≤ 2 ^ 32 - 6

/-- `parse_message` returns a message. -/
def Parsed (buffer : Bytes) : Prop := ∃ msg rest, parseMessage buffer = (.message msg, rest)

/-- The buffers whose first header is not misleading. It misleads in front of an array that has
not arrived whole, and where the announced bytes play no part in parsing: for an integer with
another length than 8, a null with a length, and a type that does not exist. -/
def Foreseen (buffer : Bytes) : Prop :=
  match readHeader buffer with
  | none => True
  | some (type, length) =>
    match MessageType.ofByte type with
    | some .simpleString | some .errorMsg | some .bulkString => True
    | some .integer => length = 8 ∨ buffer.length < 5 + length.toNat
    | some .array => ∃ elems rest, elems.length = length.toNat ∧ Takes (buffer.drop 5) elems rest
    | some .nullValue => 5 + length.toNat ≤ buffer.length
    | none => buffer.length < 5 + length.toNat

/-! ### One header -/

section Header

variable {buffer : Bytes} {length : UInt32}

theorem hasMessage_iff {type : UInt8} (header : readHeader buffer = some (type, length))
    (short : length.toNat ≤ 2 ^ 32 - 6) : hasMessage buffer = true ↔
      MessageType.ofByte type = some .array ∨ 5 + length.toNat ≤ buffer.length := by
  rw [hasMessage, header]
  simp only [hasBytes, toNat_five_add_of_short short]
  split
  next array => simp [array]
  next other => simp [other]

theorem parsed_text_iff {type : MessageType} (isText : type.isText = true)
    (header : readHeader buffer = some (type.toByte, length))
    (short : length.toNat ≤ 2 ^ 32 - 6) : Parsed buffer ↔ 5 + length.toNat ≤ buffer.length := by
  have sum := toNat_five_add_of_short short
  rw [Parsed, parseMessage_eq, parseBody_text parseMessage header isText]
  constructor
  · rintro ⟨msg, rest, parsed⟩
    rw [parseText, hasBytes, sum] at parsed
    split at parsed
    next enough => exact of_decide_eq_true enough
    next => cases parsed
  · intro enough
    exact ⟨_, _, parseText_message (by rwa [sum]) enough⟩

theorem parsed_integer_iff
    (header : readHeader buffer = some (MessageType.integer.toByte, length)) :
    Parsed buffer ↔ length = 8 ∧ 13 ≤ buffer.length := by
  rw [Parsed, parseMessage_eq]
  constructor
  · rintro ⟨msg, rest, parsed⟩
    rw [parseBody, header] at parsed
    simp only [MessageType.ofByte_toByte] at parsed
    rw [parseInteger] at parsed
    split at parsed
    next => cases parsed
    next fits =>
      rw [not_or, not_not, hasBytes, decide_eq_false_iff_not, not_not] at fits
      exact fits
  · rintro ⟨rfl, enough⟩
    exact ⟨_, _, parseBody_integer parseMessage header enough⟩

theorem parsed_null (header : readHeader buffer = some (MessageType.nullValue.toByte, length)) :
    Parsed buffer :=
  ⟨_, _, (parseMessage_eq buffer).trans (parseBody_null parseMessage header)⟩

theorem parsed_array_iff
    (header : readHeader buffer = some (MessageType.array.toByte, length)) :
    Parsed buffer ↔
      ∃ elems rest, elems.length = length.toNat ∧ Takes (buffer.drop 5) elems rest := by
  constructor
  · rintro ⟨msg, rest, parsed⟩
    obtain ⟨elems, -, counted, takes⟩ := (takes_of_parseMessage parsed).array_inv header
    exact ⟨elems, rest, counted, takes⟩
  · rintro ⟨elems, rest, counted, takes⟩
    exact ⟨_, rest, parseMessage_of_takes (.array length elems header counted takes (.done rest))⟩

/-- An unknown type clears the buffer. -/
theorem not_parsed_unknown {type : UInt8} (header : readHeader buffer = some (type, length))
    (unknown : MessageType.ofByte type = none) : ¬ Parsed buffer := by
  rintro ⟨msg, rest, parsed⟩
  rw [parseMessage_eq, parseBody, header] at parsed
  simp only [unknown] at parsed
  cases parsed

end Header

/-! ### Agreement -/

/-- **`has_message` is right about the next `parse_message` exactly when the first header does
not mislead.** -/
theorem hasMessage_agrees_iff (buffer : Bytes) (short : ShortFields buffer) :
    (hasMessage buffer = true ↔ ∃ msg rest, parseMessage buffer = (.message msg, rest)) ↔
      Foreseen buffer := by
  change (hasMessage buffer = true ↔ Parsed buffer) ↔ _
  rw [Foreseen]
  cases header : readHeader buffer with
  | none =>
    have unseen : ¬ hasMessage buffer = true := by simp [hasMessage, header]
    have unparsed : ¬ Parsed buffer := by
      rintro ⟨msg, rest, parsed⟩
      rw [parseMessage_eq, parseBody, header] at parsed
      cases parsed
    exact iff_of_true (iff_of_false unseen unparsed) trivial
  | some fields =>
    obtain ⟨byte, length⟩ := fields
    have field := short buffer (.here buffer) byte length header
    rw [hasMessage_iff header field]
    cases named : MessageType.ofByte byte with
    | none =>
      have unparsed := not_parsed_unknown header named
      simp only [named, reduceCtorEq, false_or, unparsed, iff_false, Nat.not_le]
    | some type =>
      rw [MessageType.toByte_of_ofByte named] at header
      simp only [named, Option.some.injEq]
      cases type with
      | simpleString | errorMsg | bulkString =>
        simp [parsed_text_iff rfl header field]
      | integer =>
        -- Only the length 8 parses, and then the announced bytes are those that are read.
        rw [parsed_integer_iff header]
        by_cases fixed : length = 8
        · subst fixed
          simp
        · simp [fixed]
      | array => simp [parsed_array_iff header]
      | nullValue => simp [parsed_null header]

/-- A null with its header and no data. -/
theorem hasMessage_agrees_iff_null : ShortFields Message.makeNull.serialize ∧
    ((hasMessage Message.makeNull.serialize = true ↔
      ∃ msg rest, parseMessage Message.makeNull.serialize = (.message msg, rest)) ↔
        Foreseen Message.makeNull.serialize) := by
  have short : ShortFields Message.makeNull.serialize := by
    intro suffix at' type length header
    cases at' with
    | here =>
      cases header
      decide
    | inside count elems outer => cases outer
  exact ⟨short, hasMessage_agrees_iff _ short⟩

/-- An array of one element, of which only the header is there. -/
theorem hasMessage_disagrees : ¬ ∀ buffer, ShortFields buffer →
    (hasMessage buffer = true ↔ ∃ msg rest, parseMessage buffer = (.message msg, rest)) := by
  intro agrees
  have empty {suffix : Bytes} (at' : HeaderAt [] suffix) : readHeader suffix = none := by
    cases at' with
    | here => rfl
    | inside count elems header => cases header
  have short : ShortFields [0x05, 0x01, 0x00, 0x00, 0x00] := by
    intro suffix at' type length header
    cases at' with
    | here =>
      cases header
      decide
    | inside count elems outer takes fewer later =>
      -- Nothing follows the header, so the parser meets no other.
      cases takes with
      | done => rw [empty later] at header; cases header
      | text type length other | integer other | null length other | array count elems other =>
        cases other
  obtain ⟨msg, rest, parsed⟩ := (agrees _ short).mp rfl
  cases parsed

end Parser
end ScuffedRedis.Protocol
