import ScuffedRedis.Protocol.Canonical

/-!
# Shortages and the draining loop

A call that finds too few bytes for a string or an integer leaves the buffer as it is. An array has
lost its header by then, and the elements before the one that is not there whole. An integer of
another length than 8 stays where it is, whatever follows it.
-/
namespace ScuffedRedis.Protocol
namespace Parser

/-! ### Shortages -/

/-- The header names a type. -/
def Named (suffix : Bytes) : Prop :=
  ∀ byte length, readHeader suffix = some (byte, length) → MessageType.ofByte byte ≠ none

theorem parseText_failed {make : Bytes → Message} {length : UInt32} {buffer : Bytes}
    (failed : (parseText make length buffer).1 = .nullptr) :
    (parseText make length buffer).2 = buffer := by
  unfold parseText at failed ⊢
  split
  next enough =>
    rw [if_pos enough] at failed
    split at failed <;> simp at failed
  next => rfl

theorem parseInteger_failed {length : UInt32} {buffer : Bytes}
    (failed : (parseInteger length buffer).1 = .nullptr) :
    (parseInteger length buffer).2 = buffer := by
  unfold parseInteger at failed ⊢
  split
  next => rfl
  next fits =>
    rw [if_neg fits] at failed
    split at failed <;> simp at failed

/-- A call on an array takes its header off, whatever comes of the elements. -/
theorem array_shortened {buffer : Bytes} {count : UInt32}
    (header : readHeader buffer = some (MessageType.array.toByte, count)) :
    (parseMessage buffer).2.length < buffer.length := by
  have front := readHeader_some header
  have fewer := parseElements_length parseMessage parseMessage_length count.toNat [] (buffer.drop 5)
  rw [List.length_drop] at fewer
  rw [parseMessage_eq, parseBody_array parseMessage header]
  omega

theorem failed_intact {buffer : Bytes} (failed : (parseMessage buffer).1 = .nullptr)
    (named : Named buffer)
    (flat : ∀ count, readHeader buffer ≠ some (MessageType.array.toByte, count)) :
    (parseMessage buffer).2 = buffer := by
  rw [parseMessage_eq] at failed ⊢
  cases header : readHeader buffer with
  | none => simp [parseBody, header]
  | some fields =>
    obtain ⟨byte, length⟩ := fields
    obtain ⟨type, known⟩ := Option.ne_none_iff_exists'.mp (named byte length header)
    rw [MessageType.toByte_of_ofByte known] at header
    by_cases text : type.isText = true
    · rw [parseBody_text parseMessage header text] at failed ⊢
      exact parseText_failed failed
    · cases type with
      | simpleString | errorMsg | bulkString => exact absurd rfl text
      | integer =>
        simp only [parseBody, header, MessageType.ofByte_toByte] at failed ⊢
        exact parseInteger_failed failed
      | array => exact absurd header (flat length)
      | nullValue => simp [parseBody_null parseMessage header] at failed

/-- **A call without a message leaves the buffer intact exactly when it does not start with an
array.** Only then does a retry with the missing bytes see what the first call saw. -/
theorem failed_intact_iff {buffer : Bytes} (failed : (parseMessage buffer).1 = .nullptr)
    (named : ∀ suffix, HeaderAt buffer suffix → Named suffix) :
    ((parseMessage buffer).2 = buffer ∧
        ∀ more, parseMessage (feed (parseMessage buffer).2 more) =
          parseMessage (feed buffer more)) ↔
      ∀ count, readHeader buffer ≠ some (MessageType.array.toByte, count) := by
  constructor
  · rintro ⟨intact, -⟩ count header
    have shorter := array_shortened header
    simp [intact] at shorter
  · intro flat
    have intact := failed_intact failed (named buffer (.here buffer)) flat
    exact ⟨intact, fun more => by rw [intact]⟩

theorem named_flat {buffer : Bytes} (type : MessageType) {length : UInt32}
    (header : readHeader buffer = some (type.toByte, length)) (flat : type ≠ .array) :
    ∀ suffix, HeaderAt buffer suffix → Named suffix := by
  intro suffix reached byte other header'
  obtain rfl := (headerAt_flat header flat).mp reached
  obtain ⟨rfl, -⟩ : type.toByte = byte ∧ _ := by simpa [header] using header'
  simp

/-- A bulk string of one byte that is not there yet. -/
theorem failed_intact_iff_bulkString :
    (parseMessage [0x04, 1, 0, 0, 0]).1 = .nullptr ∧
      (∀ suffix, HeaderAt [0x04, 1, 0, 0, 0] suffix → Named suffix) ∧
      ((parseMessage [0x04, 1, 0, 0, 0]).2 = [0x04, 1, 0, 0, 0] ∧
          (∀ more, parseMessage (feed (parseMessage [0x04, 1, 0, 0, 0]).2 more) =
            parseMessage (feed [0x04, 1, 0, 0, 0] more)) ↔
        ∀ count, readHeader [0x04, 1, 0, 0, 0] ≠ some (MessageType.array.toByte, count)) :=
  ⟨rfl, named_flat .bulkString rfl (by decide),
    failed_intact_iff rfl (named_flat .bulkString rfl (by decide))⟩

/-- An array of one element, of which only the header is there. -/
theorem array_header_lost : ¬ ∀ buffer : Bytes, (parseMessage buffer).1 = .nullptr →
    (∀ suffix, HeaderAt buffer suffix → Named suffix) →
      (parseMessage buffer).2 = buffer ∧
        ∀ more, parseMessage (feed (parseMessage buffer).2 more) =
          parseMessage (feed buffer more) := by
  intro intact
  have header : readHeader [0x05, 1, 0, 0, 0] = some (MessageType.array.toByte, 1) := rfl
  have named : ∀ suffix, HeaderAt [0x05, 1, 0, 0, 0] suffix → Named suffix := by
    intro suffix reached byte length header'
    rcases (headerAt_array header).mp reached with rfl | ⟨elems, middle, takes, fewer, later⟩
    · obtain ⟨rfl, -⟩ : MessageType.array.toByte = byte ∧ _ := by simpa [header] using header'
      simp
    · -- Nothing follows the header.
      obtain rfl : elems = [] := List.eq_nil_of_length_eq_zero (Nat.lt_one_iff.mp fewer)
      cases takes
      cases later with
      | here => cases header'
      | inside count elems other => cases other
  exact absurd (intact _ rfl named).1 (by decide)

/-! ### Draining -/

/-- The loop `while (has_message()) parse_message();`, within a number of iterations. -/
def drain : Nat → Bytes → Bytes
  | 0, buffer => buffer
  | calls + 1, buffer => if hasMessage buffer then drain calls (parseMessage buffer).2 else buffer

/-- An integer of another length than 8 is at the front, with all bytes that it announces. -/
def BadInteger (buffer : Bytes) : Prop :=
  ∃ length, readHeader buffer = some (MessageType.integer.toByte, length) ∧ length ≠ 8 ∧
    5 + length.toNat ≤ buffer.length

theorem badInteger_stuck {buffer : Bytes} (bad : BadInteger buffer) :
    parseMessage buffer = (.nullptr, buffer) := by
  obtain ⟨length, header, wrong, -⟩ := bad
  rw [parseMessage_eq]
  simp [parseBody, header, parseInteger, wrong]

/-- Every other header whose bytes are there is taken off, or clears the buffer. -/
theorem shortened {buffer : Bytes} (short : ShortFields buffer) (has : hasMessage buffer = true)
    (good : ¬ BadInteger buffer) : (parseMessage buffer).2.length < buffer.length := by
  cases header : readHeader buffer with
  | none => simp [hasMessage, header] at has
  | some fields =>
    obtain ⟨byte, length⟩ := fields
    have front := readHeader_some header
    have field := short buffer (.here buffer) byte length header
    rw [hasMessage_iff header field] at has
    cases named : MessageType.ofByte byte with
    | none =>
      rw [parseMessage_eq]
      simp [parseBody, header, named]
      omega
    | some type =>
      obtain rfl := MessageType.toByte_of_ofByte named
      by_cases array : type = .array
      · subst array
        exact array_shortened header
      · -- All announced bytes are there.
        have enough : 5 + length.toNat ≤ buffer.length := by simpa [array] using has
        have sum := toNat_five_add_of_short field
        rw [parseMessage_eq]
        by_cases text : type.isText = true
        · rw [parseBody_text parseMessage header text,
            parseText_message (by rwa [sum]) enough, List.length_drop, sum]
          omega
        · cases type with
          | simpleString | errorMsg | bulkString => exact absurd rfl text
          | integer =>
            have fixed : length = 8 := by
              by_contra wrong
              exact good ⟨length, header, wrong, enough⟩
            subst fixed
            rw [parseBody_integer parseMessage header enough, List.length_drop]
            omega
          | array => exact absurd rfl array
          | nullValue =>
            rw [parseBody_null parseMessage header, List.length_drop]
            omega

theorem hasMessage_of_badInteger {buffer : Bytes} (bad : BadInteger buffer)
    (short : ShortFields buffer) : hasMessage buffer = true := by
  obtain ⟨length, header, -, enough⟩ := bad
  have field := short buffer (.here buffer) _ length header
  exact (hasMessage_iff header field).mpr (.inr enough)

theorem drain_succ (calls : Nat) (buffer : Bytes) :
    drain (calls + 1) buffer =
      if hasMessage (drain calls buffer) = true then (parseMessage (drain calls buffer)).2
      else drain calls buffer := by
  induction calls generalizing buffer with
  | zero => rfl
  | succ calls ih =>
    rw [drain]
    split
    next has => rw [ih, drain, if_pos has]
    next stopped => simp [drain, stopped]

/-- A buffer that the loop does not change stays to the end. -/
theorem drain_fixed {calls : Nat} {buffer : Bytes}
    (fixed : drain (calls + 1) buffer = drain calls buffer) (more : Nat) :
    drain (calls + more) buffer = drain calls buffer := by
  induction more with
  | zero => rfl
  | succ more ih => rw [← Nat.add_assoc, drain_succ, ih, ← drain_succ, fixed]

section Loop

variable {buffer : Bytes} (short : ∀ calls, ShortFields (drain calls buffer))

include short

/-- Every call takes a byte at least, as long as none stops at a bad integer. -/
theorem drain_length (good : ∀ calls, ¬ BadInteger (drain calls buffer))
    (has : ∀ calls, hasMessage (drain calls buffer) = true) (calls : Nat) :
    (drain calls buffer).length + calls ≤ buffer.length := by
  induction calls with
  | zero => exact Nat.le_refl _
  | succ calls ih =>
    have shorter := shortened (short calls) (has calls) (good calls)
    rw [drain_succ, if_pos (has calls)]
    omega

theorem drain_ends_iff :
    (∃ calls, hasMessage (drain calls buffer) = false) ↔
      ∀ calls, ¬ BadInteger (drain calls buffer) := by
  constructor
  · rintro ⟨calls, ended⟩ stop bad
    have has := hasMessage_of_badInteger bad (short stop)
    -- The loop has stopped before, or it never does.
    have before : drain (calls + 1) buffer = drain calls buffer := by
      rw [drain_succ, if_neg (by simp [ended])]
    have after : drain (stop + 1) buffer = drain stop buffer := by
      rw [drain_succ, if_pos has, badInteger_stuck bad]
    rcases Nat.le_total calls stop with early | late
    · obtain ⟨more, rfl⟩ := Nat.exists_eq_add_of_le early
      rw [drain_fixed before, ended] at has
      cases has
    · obtain ⟨more, rfl⟩ := Nat.exists_eq_add_of_le late
      rw [drain_fixed after, has] at ended
      cases ended
  · intro good
    by_contra never
    have has : ∀ calls, hasMessage (drain calls buffer) = true := by simpa using never
    have length := drain_length short good has (buffer.length + 1)
    omega

end Loop

/-- **Draining makes progress exactly when it meets no bad integer.** Then the loop ends, because
every call shortens the buffer. -/
theorem drain_iff (buffer : Bytes) (short : ∀ calls, ShortFields (drain calls buffer)) :
    ((∃ calls, hasMessage (drain calls buffer) = false) ∧
        ∀ calls, hasMessage (drain calls buffer) = true →
          (parseMessage (drain calls buffer)).2.length < (drain calls buffer).length) ↔
      ∀ calls, ¬ BadInteger (drain calls buffer) := by
  rw [drain_ends_iff short]
  exact and_iff_left_of_imp fun good calls has => shortened (short calls) has (good calls)

theorem drain_iff_null :
    (∀ calls, ShortFields (drain calls [0x06, 0, 0, 0, 0])) ∧
      (((∃ calls, hasMessage (drain calls [0x06, 0, 0, 0, 0]) = false) ∧
          ∀ calls, hasMessage (drain calls [0x06, 0, 0, 0, 0]) = true →
            (parseMessage (drain calls [0x06, 0, 0, 0, 0])).2.length <
              (drain calls [0x06, 0, 0, 0, 0]).length) ↔
        ∀ calls, ¬ BadInteger (drain calls [0x06, 0, 0, 0, 0])) := by
  have last : drain 2 [0x06, 0, 0, 0, 0] = drain 1 [0x06, 0, 0, 0, 0] := rfl
  have short : ∀ calls, ShortFields (drain calls [0x06, 0, 0, 0, 0]) := by
    intro calls
    match calls with
    | 0 => exact shortFields_flat .nullValue rfl (by decide) (by decide)
    | more + 1 =>
      rw [Nat.add_comm, drain_fixed last]
      intro suffix reached type length header
      cases reached with
      | here => cases header
      | inside count elems other => cases other
  exact ⟨short, drain_iff _ short⟩

/-- An integer of length 0 is there for ever. -/
theorem drain_never_ends : ¬ ∀ buffer, (∀ calls, ShortFields (drain calls buffer)) →
    (∃ calls, hasMessage (drain calls buffer) = false) ∧
      ∀ calls, hasMessage (drain calls buffer) = true →
        (parseMessage (drain calls buffer)).2.length < (drain calls buffer).length := by
  intro drains
  have same (calls : Nat) : drain calls [0x03, 0, 0, 0, 0] = [0x03, 0, 0, 0, 0] := by
    have fixed : drain 1 [0x03, 0, 0, 0, 0] = drain 0 [0x03, 0, 0, 0, 0] := rfl
    rw [← Nat.zero_add calls]
    exact drain_fixed fixed calls
  have short : ∀ calls, ShortFields (drain calls [0x03, 0, 0, 0, 0]) := by
    intro calls
    rw [same]
    exact shortFields_flat .integer rfl (by decide) (by decide)
  exact absurd ((drains _ short).2 0 rfl) (by decide)

end Parser
end ScuffedRedis.Protocol
