import ScuffedRedis.Protocol.ParserLaws

/-!
# Where the parser reads outside its buffer

The test `has_bytes(5 + length)` is made in 32 bits while the range that is read is not,
so a string header that announces `2^32 - 5` bytes or more passes the test with any
buffer. `HeaderAt` says which headers of a buffer the parser gets to.
-/
namespace ScuffedRedis.Protocol

/-- `HeaderAt buffer suffix`: a call on `buffer` reads a header at the front of `suffix`.
Inside an array this happens after some, but not all, of the elements are taken. -/
inductive HeaderAt : Bytes → Bytes → Prop
  | here (buffer) : HeaderAt buffer buffer
  | inside {buffer middle suffix} (count : UInt32) (elems : List Message) :
      Parser.readHeader buffer = some (MessageType.array.toByte, count) →
      Takes (buffer.drop 5) elems middle → elems.length < count.toNat →
      HeaderAt middle suffix → HeaderAt buffer suffix

/-- A string header whose announced range ends beyond both the 32-bit sum and the buffer. -/
def Wraps (suffix : Bytes) : Prop :=
  ∃ (type : MessageType) (length : UInt32),
    Parser.readHeader suffix = some (type.toByte, length) ∧ type.isText = true ∧
      2 ^ 32 ≤ 5 + length.toNat ∧ suffix.length < 5 + length.toNat

namespace Parser

private theorem toNat_five_add (length : UInt32) :
    (5 + length).toNat = (5 + length.toNat) % 2 ^ 32 := by
  rw [UInt32.toNat_add]
  rfl

/-- One string is read out of range exactly when its header wraps. -/
theorem parseText_overrun_iff (make : Bytes → Message) {length : UInt32} {buffer : Bytes}
    (header : 5 ≤ buffer.length) :
    (parseText make length buffer).1 = .overrun ↔
      2 ^ 32 ≤ 5 + length.toNat ∧ buffer.length < 5 + length.toNat := by
  have small := length.toNat_lt
  have sum := toNat_five_add length
  unfold parseText
  by_cases enough : hasBytes buffer (5 + length).toNat = true
  · rw [if_pos enough]
    have tested : (5 + length).toNat ≤ buffer.length := of_decide_eq_true enough
    by_cases range : 5 + length.toNat ≤ buffer.length
    · simp [copyRange, range]
    · -- The test passed and the range does not fit, so the 32-bit sum must have wrapped.
      simp only [copyRange, if_neg range, true_iff]
      omega
  · rw [if_neg enough]
    have failed : ¬ (5 + length).toNat ≤ buffer.length := fun fits => enough (decide_eq_true fits)
    simp only [reduceCtorEq, false_iff, not_and, Nat.not_lt]
    intro wraps
    omega

theorem parseInteger_ne_overrun (length : UInt32) (buffer : Bytes) :
    (parseInteger length buffer).1 ≠ .overrun := by
  unfold parseInteger
  split
  · simp
  next fits =>
    simp only [not_or, Bool.not_eq_false, hasBytes, decide_eq_true_eq] at fits
    simp [copyRange, fits.2]

/-- An element loop that ends out of range has taken some elements before that. -/
private theorem parseElements_overrun {count : Nat} {array : List (Option Message)}
    {buffer : Bytes} (overrun : (parseElements parseMessage count array buffer).1 = .overrun) :
    ∃ (elems : List Message) (middle : Bytes), elems.length < count ∧
      Takes buffer elems middle ∧ (parseMessage middle).1 = .overrun := by
  induction count generalizing array buffer with
  | zero => simp [parseElements] at overrun
  | succ count ih =>
    rw [parseElements] at overrun
    split at overrun
    next elem rest called =>
      obtain ⟨elems, middle, fewer, takes, reached⟩ := ih overrun
      refine ⟨elem :: elems, middle, Nat.succ_lt_succ fewer, ?_, reached⟩
      exact (takes_of_parseMessage called).trans takes
    · simp at overrun
    next rest called =>
      -- This call overran.
      exact ⟨[], buffer, Nat.succ_pos _, .done _, by rw [called]⟩

private theorem exists_wraps {buffer : Bytes} (overrun : (parseMessage buffer).1 = .overrun) :
    ∃ suffix, HeaderAt buffer suffix ∧ Wraps suffix := by
  induction size : buffer.length using Nat.strongRecOn generalizing buffer with
  | ind size ih =>
    rw [parseMessage_eq] at overrun
    cases header : readHeader buffer with
    | none => simp [parseBody, header] at overrun
    | some fields =>
      obtain ⟨byte, length⟩ := fields
      have enough := readHeader_some header
      cases named : MessageType.ofByte byte with
      | none => simp [parseBody, header, named] at overrun
      | some type =>
        rw [MessageType.toByte_of_ofByte named] at header
        -- A string is read here, and an array leads to a header further on.
        by_cases text : type.isText = true
        · rw [parseBody_text parseMessage header text] at overrun
          have wraps := (parseText_overrun_iff _ enough).mp overrun
          exact ⟨buffer, .here buffer, type, length, header, text, wraps⟩
        · cases type with
          | simpleString | errorMsg | bulkString => exact absurd rfl text
          | integer =>
            simp only [parseBody, header, MessageType.ofByte_toByte] at overrun
            exact absurd overrun (parseInteger_ne_overrun _ _)
          | array =>
            rw [parseBody_array parseMessage header] at overrun
            obtain ⟨elems, middle, fewer, takes, reached⟩ := parseElements_overrun overrun
            have shorter := takes.length_le
            rw [List.length_drop] at shorter
            obtain ⟨suffix, at', wraps⟩ := ih middle.length (by omega) reached rfl
            exact ⟨suffix, .inside length elems header takes fewer at', wraps⟩
          | nullValue => simp [parseBody_null parseMessage header] at overrun

private theorem overrun_of_wraps {buffer suffix : Bytes} (at' : HeaderAt buffer suffix)
    (wraps : Wraps suffix) : (parseMessage buffer).1 = .overrun := by
  rw [parseMessage_eq]
  induction at' with
  | here buffer =>
    obtain ⟨type, length, header, text, range⟩ := wraps
    rw [parseBody_text parseMessage header text]
    exact (parseText_overrun_iff _ (readHeader_some header)).mpr range
  | inside count elems header takes fewer _ ih =>
    have reached := ih wraps
    rw [← parseMessage_eq] at reached
    rw [parseBody_array parseMessage header]
    -- The loop gets past the elements before the header, with at least one call left.
    obtain ⟨more, left⟩ := Nat.exists_eq_add_of_lt fewer
    rw [left, Nat.add_assoc, parseElements_of_takes takes, parseElements]
    split
    next called => simp [called] at reached
    next called => simp [called] at reached
    next => rfl

/-- **The parser reads inside its buffer exactly when no string header it gets to
wraps.** A header wraps when it announces `2^32 - 5` bytes or more and fewer follow. -/
theorem parseMessage_in_range_iff (buffer : Bytes) :
    (parseMessage buffer).1 ≠ .overrun ↔ ∀ suffix, HeaderAt buffer suffix → ¬ Wraps suffix := by
  constructor
  · intro inRange suffix at' wraps
    exact inRange (overrun_of_wraps at' wraps)
  · intro none overrun
    obtain ⟨suffix, at', wraps⟩ := exists_wraps overrun
    exact none suffix at' wraps

/-- Five bytes that announce `2^32 - 1` are enough to read four gigabytes past the end. -/
theorem parseMessage_overruns :
    ¬ ∀ buffer : Bytes, (parseMessage buffer).1 ≠ .overrun := fun inRange =>
  inRange [0x04, 0xFF, 0xFF, 0xFF, 0xFF] rfl

end Parser
end ScuffedRedis.Protocol
