import Mathlib

/-!
# UTF-8 and the length of UTF-16

A string of Unicode scalar values, the bytes that encode it, and the decoder of the Encoding
Standard, which replaces what is not UTF-8 by U+FFFD. Decoding undoes encoding.
-/
namespace Foundation.Utf8

/-! ### Encoding -/

def encodeChars (chars : List Char) : List UInt8 := chars.flatMap String.utf8EncodeChar

/-- The UTF-8 bytes of a string. -/
def encode (string : String) : List UInt8 := encodeChars string.toList

/-- The number of UTF-16 code units of a character: beyond the basic plane it takes two. -/
def utf16Size (c : Char) : Nat := if c.toNat < 0x10000 then 1 else 2

/-- The number of UTF-16 code units of a string. -/
def utf16Length (string : String) : Nat := (string.toList.map utf16Size).sum

/-! ### Decoding -/

def replacement : Char := Char.ofNat 0xFFFD

/-- A sequence that is not finished: its bits so far, the bytes it still needs, and the bounds of
the next one. -/
structure Pending where
  codePoint : Nat
  needed : Nat
  lower : Nat
  upper : Nat

/-- A byte between sequences: the characters it completes, and the sequence it begins. -/
def first (byte : Nat) : List Char × Option Pending :=
  if byte ≤ 0x7F then ([Char.ofNat byte], none)
  else if 0xC2 ≤ byte ∧ byte ≤ 0xDF then ([], some ⟨byte - 0xC0, 1, 0x80, 0xBF⟩)
  else if 0xE0 ≤ byte ∧ byte ≤ 0xEF then
    -- No encoding that is too long, and no surrogate.
    ([], some ⟨byte - 0xE0, 2, if byte = 0xE0 then 0xA0 else 0x80,
      if byte = 0xED then 0x9F else 0xBF⟩)
  else if 0xF0 ≤ byte ∧ byte ≤ 0xF4 then
    ([], some ⟨byte - 0xF0, 3, if byte = 0xF0 then 0x90 else 0x80,
      if byte = 0xF4 then 0x8F else 0xBF⟩)
  else ([replacement], none)

/-- A byte that cannot go on with a sequence ends it and is looked at again. -/
def next : Option Pending → Nat → List Char × Option Pending
  | none, byte => first byte
  | some pending, byte =>
    if pending.lower ≤ byte ∧ byte ≤ pending.upper then
      let codePoint := pending.codePoint * 64 + (byte - 0x80)
      if pending.needed = 1 then ([Char.ofNat codePoint], none)
      else ([], some ⟨codePoint, pending.needed - 1, 0x80, 0xBF⟩)
    else (replacement :: (first byte).1, (first byte).2)

def decodeFrom : Option Pending → List UInt8 → List Char
  | none, [] => []
  | some _, [] => [replacement]
  | pending, byte :: bytes =>
    (next pending byte.toNat).1 ++ decodeFrom (next pending byte.toNat).2 bytes

def decode (bytes : List UInt8) : String := String.ofList (decodeFrom none bytes)

theorem encodeChars_ascii {chars : List Char} (ascii : ∀ c ∈ chars, c.toNat < 128) :
    encodeChars chars = chars.map fun c => UInt8.ofNat c.toNat := by
  induction chars with
  | nil => simp [encodeChars]
  | cons c rest ih =>
    have small := ascii c List.mem_cons_self
    have value : c.val.toNat = c.toNat := rfl
    have single : String.utf8EncodeChar c = [UInt8.ofNat c.toNat] := by
      simp only [String.utf8EncodeChar, value]
      rw [if_pos (by omega)]
    have later := ih fun other member => ascii other (List.mem_cons_of_mem c member)
    rw [encodeChars] at later ⊢
    rw [List.flatMap_cons, single, later, List.singleton_append, List.map_cons]

/-- The first byte of any other character is none of ASCII. -/
theorem encodeChar_beyond {c : Char} (beyond : 128 ≤ c.toNat) :
    ∃ byte ∈ String.utf8EncodeChar c, 128 ≤ byte.toNat := by
  have value : c.val.toNat = c.toNat := rfl
  have lead (offset bits : Nat) (large : 128 ≤ offset + bits) (small : offset + bits < 256) :
      128 ≤ (UInt8.ofNat (offset + bits)).toNat := by
    rwa [UInt8.toNat_ofNat_of_lt' small]
  unfold String.utf8EncodeChar
  simp only [value]
  split
  next one => omega
  split
  next two => exact ⟨_, List.mem_cons_self, lead _ _ (by omega) (by omega)⟩
  split
  next three => exact ⟨_, List.mem_cons_self, lead _ _ (by omega) (by omega)⟩
  next four => exact ⟨_, List.mem_cons_self, lead _ _ (by omega) (by omega)⟩

/-! ### Lengths -/

theorem length_encodeChars (chars : List Char) :
    (encodeChars chars).length = (chars.map Char.utf8Size).sum := by
  simp only [encodeChars, List.length_flatMap, String.length_utf8EncodeChar]

/-- One code unit and one byte: the characters below U+0080. -/
theorem utf16Size_le (c : Char) :
    utf16Size c ≤ c.utf8Size ∧ (utf16Size c = c.utf8Size ↔ c.toNat < 0x80) := by
  have one := Char.utf8Size_eq_one_iff (c := c)
  have four := Char.utf8Size_eq_four_iff (c := c)
  have sizes := c.utf8Size_eq
  rw [UInt32.le_iff_toNat_le] at one
  rw [UInt32.lt_iff_toNat_lt] at four
  change _ ↔ c.toNat ≤ 127 at one
  change _ ↔ 65535 < c.toNat at four
  unfold utf16Size
  split <;> omega

theorem utf16Length_le (string : String) : utf16Length string ≤ (encode string).length ∧
    (utf16Length string = (encode string).length ↔ ∀ c ∈ string.toList, c.toNat < 0x80) := by
  rw [utf16Length, encode, length_encodeChars]
  induction string.toList with
  | nil => simp
  | cons c chars ih =>
    obtain ⟨less, exact'⟩ := ih
    obtain ⟨small, same⟩ := utf16Size_le c
    rw [List.map_cons, List.map_cons, List.sum_cons, List.sum_cons, List.forall_mem_cons]
    refine ⟨Nat.add_le_add small less, ?_⟩
    rw [← same, ← exact']
    omega

/-! ### Decoding undoes encoding -/

theorem decodeFrom_cons (pending : Option Pending) (byte : UInt8) (bytes : List UInt8) :
    decodeFrom pending (byte :: bytes) =
      (next pending byte.toNat).1 ++ decodeFrom (next pending byte.toNat).2 bytes := by
  cases pending <;> rfl

/-- A continuation byte that is not the last. -/
theorem decodeFrom_continue {codePoint needed lower upper : Nat} {byte : UInt8}
    (more : needed ≠ 1) (within : lower ≤ byte.toNat ∧ byte.toNat ≤ upper) (bytes : List UInt8) :
    decodeFrom (some ⟨codePoint, needed, lower, upper⟩) (byte :: bytes) =
      decodeFrom (some ⟨codePoint * 64 + (byte.toNat - 0x80), needed - 1, 0x80, 0xBF⟩) bytes := by
  rw [decodeFrom_cons, next, if_pos within, if_neg more, List.nil_append]

/-- The last byte of a sequence. -/
theorem decodeFrom_finish {codePoint lower upper : Nat} {byte : UInt8}
    (within : lower ≤ byte.toNat ∧ byte.toNat ≤ upper) (bytes : List UInt8) :
    decodeFrom (some ⟨codePoint, 1, lower, upper⟩) (byte :: bytes) =
      Char.ofNat (codePoint * 64 + (byte.toNat - 0x80)) :: decodeFrom none bytes := by
  rw [decodeFrom_cons, next, if_pos within, if_pos rfl, List.singleton_append]

theorem decodeFrom_encodeChar (c : Char) (rest : List UInt8) :
    decodeFrom none (String.utf8EncodeChar c ++ rest) = c :: decodeFrom none rest := by
  have valid : c.toNat < 0xD800 ∨ 0xDFFF < c.toNat ∧ c.toNat < 0x110000 := c.valid
  have byte (n : Nat) (small : n < 256) : (UInt8.ofNat n).toNat = n :=
    UInt8.toNat_ofNat_of_lt' small
  have value : c.val.toNat = c.toNat := rfl
  -- One case for each number of bytes: the bits come back together, digit by digit in base 64.
  unfold String.utf8EncodeChar
  simp only [value]
  split
  next one =>
    rw [List.singleton_append, decodeFrom_cons, byte _ (by omega), next, first, if_pos one,
      Char.ofNat_toNat]
    rfl
  split
  next two =>
    have restored : c.toNat / 64 % 32 + 192 - 192 = c.toNat / 64 := by omega
    rw [List.cons_append, List.singleton_append, decodeFrom_cons, byte _ (by omega), next, first,
      if_neg (by omega), if_pos (by omega), List.nil_append, restored, decodeFrom_finish]
    · rw [byte _ (by omega), show c.toNat / 64 * 64 + (c.toNat % 64 + 128 - 128) = c.toNat by omega,
        Char.ofNat_toNat]
    · rw [byte _ (by omega)]
      omega
  split
  next three =>
    have restored : c.toNat / 4096 % 16 + 224 - 224 = c.toNat / 4096 := by omega
    rw [List.cons_append, List.cons_append, List.singleton_append, decodeFrom_cons,
      byte _ (by omega), next, first, if_neg (by omega), if_neg (by omega), if_pos (by omega),
      List.nil_append, restored, decodeFrom_continue (by decide), decodeFrom_finish]
    · rw [byte _ (by omega), byte _ (by omega),
        show (c.toNat / 4096 * 64 + (c.toNat / 64 % 64 + 128 - 128)) * 64 +
          (c.toNat % 64 + 128 - 128) = c.toNat by omega, Char.ofNat_toNat]
    · rw [byte _ (by omega)]
      omega
    · rw [byte _ (by omega)]
      constructor <;> split <;> omega
  next four =>
    have restored : c.toNat / 262144 % 8 + 240 - 240 = c.toNat / 262144 := by omega
    rw [List.cons_append, List.cons_append, List.cons_append, List.singleton_append,
      decodeFrom_cons, byte _ (by omega), next, first, if_neg (by omega), if_neg (by omega),
      if_neg (by omega), if_pos (by omega), List.nil_append, restored,
      decodeFrom_continue (by decide), decodeFrom_continue (by decide), decodeFrom_finish]
    · rw [byte _ (by omega), byte _ (by omega), byte _ (by omega),
        show ((c.toNat / 262144 * 64 + (c.toNat / 4096 % 64 + 128 - 128)) * 64 +
          (c.toNat / 64 % 64 + 128 - 128)) * 64 + (c.toNat % 64 + 128 - 128) = c.toNat by omega,
        Char.ofNat_toNat]
    · rw [byte _ (by omega)]
      omega
    · rw [byte _ (by omega)]
      omega
    · -- The bounds of the second byte keep out encodings that are too long or too large.
      rw [byte _ (by omega)]
      constructor <;> split <;> omega

/-- Whole characters at the front are read as they are, whatever follows them. -/
theorem decodeFrom_encodeChars (chars : List Char) (rest : List UInt8) :
    decodeFrom none (encodeChars chars ++ rest) = chars ++ decodeFrom none rest := by
  induction chars with
  | nil => rfl
  | cons c chars ih =>
    rw [encodeChars, List.flatMap_cons, List.append_assoc, decodeFrom_encodeChar, List.cons_append]
    exact congrArg (c :: ·) ih

theorem decode_encode (string : String) : decode (encode string) = string := by
  have whole := decodeFrom_encodeChars string.toList []
  rw [List.append_nil, decodeFrom, List.append_nil] at whole
  rw [decode, encode, whole, String.ofList_toList]

/-- A byte completes at most one character, and ends at most one sequence. -/
theorem length_next_le (pending : Option Pending) (byte : Nat) :
    (next pending byte).1.length + (if (next pending byte).2.isSome then 1 else 0) ≤
      1 + (if pending.isSome then 1 else 0) := by
  -- A byte that is looked at again begins at most one sequence.
  have begun : (first byte).1.length + (if (first byte).2.isSome then 1 else 0) ≤ 1 := by
    unfold first
    split
    · simp
    · split
      · simp
      · split
        · simp
        · split <;> simp
  cases pending with
  | none => exact begun
  | some pending =>
    rw [next]
    split
    · simp only
      split <;> simp
    · simp only [List.length_cons, Option.isSome_some, if_true]
      omega

theorem length_decodeFrom_le (pending : Option Pending) (bytes : List UInt8) :
    (decodeFrom pending bytes).length ≤ bytes.length + (if pending.isSome then 1 else 0) := by
  induction bytes generalizing pending with
  | nil => cases pending <;> simp [decodeFrom]
  | cons byte bytes ih =>
    have rest := ih (next pending byte.toNat).2
    have one := length_next_le pending byte.toNat
    rw [decodeFrom_cons, List.length_append, List.length_cons]
    omega

theorem length_encodeChars_le (chars : List Char) :
    (encodeChars chars).length ≤ chars.length * 4 := by
  rw [length_encodeChars, ← List.length_map Char.utf8Size, ← smul_eq_mul]
  apply List.sum_le_card_nsmul
  intro size listed
  obtain ⟨c, -, rfl⟩ := List.mem_map.mp listed
  exact c.utf8Size_le_four

/-- Bytes that are cut off are missed, but for those of a few characters: the last sequence that
is not whole is read as replacements. -/
theorem length_le_of_decodeFrom_take {chars : List Char} {count : Nat}
    (same : decodeFrom none ((encodeChars chars).take count) = chars) :
    (encodeChars chars).length ≤ count + 12 := by
  induction chars generalizing count with
  | nil => simp [encodeChars]
  | cons c chars ih =>
    have size := String.length_utf8EncodeChar c
    by_cases whole : c.utf8Size ≤ count
    · -- The first character is read whole, and the others from what remains.
      rw [encodeChars, List.flatMap_cons, List.take_append, size,
        List.take_of_length_le (by omega), decodeFrom_encodeChar] at same
      have rest := ih (List.cons.inj same).2
      rw [encodeChars, List.flatMap_cons, List.length_append, size]
      change c.utf8Size + (encodeChars chars).length ≤ count + 12
      omega
    · -- Fewer than four bytes are read, so there are at most three characters.
      have read := length_decodeFrom_le none ((encodeChars (c :: chars)).take count)
      have most := length_encodeChars_le (c :: chars)
      have four := c.utf8Size_le_four
      rw [same, List.length_take, Option.isSome_none] at read
      simp only [Bool.false_eq_true, if_false] at read
      omega

theorem length_le_of_decode_take {string : String} {count : Nat}
    (same : decode ((encode string).take count) = string) :
    (encode string).length ≤ count + 12 := by
  apply length_le_of_decodeFrom_take
  conv_rhs => rw [← same, decode, String.toList_ofList]
  rfl

end Foundation.Utf8
