import Mathlib

/-!
# Little-endian words

A word is written as its bytes, least significant first, by shifting and masking,
and read back by or-ing each byte in at its place. Both directions are stated for
bit vectors of any width.
-/
namespace Foundation.LittleEndian

variable {w : Nat}

private theorem getLsbD_mask (j : Nat) (bound : j < w) : (255#w).getLsbD j = decide (j < 8) := by
  rw [BitVec.getLsbD_ofNat, show (255 : Nat) = 2 ^ 8 - 1 from rfl, Nat.testBit_two_pow_sub_one]
  simp [bound]

/-- Byte `k` of a word, least significant first. -/
def byteAt (x : BitVec w) (k : Nat) : BitVec 8 := x.extractLsb' (k * 8) 8

/-- A logical right shift, the mask and the cast to a byte pick out one byte. -/
theorem ushiftRight_byte (x : BitVec w) (k : Nat) (inside : (k + 1) * 8 ≤ w) :
    (x >>> (k * 8) &&& 255#w).setWidth 8 = byteAt x k := by
  apply BitVec.eq_of_getLsbD_eq
  intro j small
  have width : j < w := by omega
  rw [BitVec.getLsbD_setWidth, BitVec.getLsbD_and, BitVec.getLsbD_ushiftRight,
    getLsbD_mask j width, byteAt, BitVec.getLsbD_extractLsb']
  simp [small]

/-- The arithmetic shift picks out the same byte: the copies of the sign bit stay above it. -/
theorem sshiftRight_byte (x : BitVec w) (k : Nat) (inside : (k + 1) * 8 ≤ w) :
    (x.sshiftRight (k * 8) &&& 255#w).setWidth 8 = byteAt x k := by
  apply BitVec.eq_of_getLsbD_eq
  intro j small
  have width : j < w := by omega
  have place : k * 8 + j < w := by omega
  rw [BitVec.getLsbD_setWidth, BitVec.getLsbD_and, BitVec.getLsbD_sshiftRight,
    getLsbD_mask j width, byteAt, BitVec.getLsbD_extractLsb']
  simp [small, place, width]

/-- The word put together from its first `n` bytes, each or-ed in at its place. -/
def assemble (w : Nat) (byte : Nat → BitVec 8) (n : Nat) : BitVec w :=
  (List.range n).foldl (fun value k => value ||| (byte k).setWidth w <<< (k * 8)) 0#w

theorem assemble_succ (byte : Nat → BitVec 8) (n : Nat) :
    assemble w byte (n + 1) = assemble w byte n ||| (byte n).setWidth w <<< (n * 8) := by
  simp [assemble, List.range_succ]

/-- After `n` bytes, bit `i` of the assembled word is bit `i % 8` of byte `i / 8`. -/
theorem getLsbD_assemble (byte : Nat → BitVec 8) (n i : Nat) (inside : n * 8 ≤ w) (bound : i < w) :
    (assemble w byte n).getLsbD i = (decide (i < n * 8) && (byte (i / 8)).getLsbD (i % 8)) := by
  induction n with
  | zero => simp [assemble]
  | succ n ih =>
    rw [assemble_succ, BitVec.getLsbD_or, ih (by omega), BitVec.getLsbD_shiftLeft,
      BitVec.getLsbD_setWidth]
    by_cases below : i < n * 8
    · simp [below, show i < (n + 1) * 8 by omega]
    · by_cases inByte : i < (n + 1) * 8
      · have place : i / 8 = n := by omega
        have offset : i % 8 = i - n * 8 := by omega
        simp [below, inByte, bound, place, offset, show i - n * 8 < w by omega]
      · have outside : 8 ≤ i - n * 8 := by omega
        simp [below, inByte, BitVec.getLsbD_of_ge _ _ outside]

/-- A word of `n` bytes is read back from its bytes. -/
theorem assemble_byteAt (x : BitVec w) (n : Nat) (width : n * 8 = w) :
    assemble w (byteAt x) n = x := by
  apply BitVec.eq_of_getLsbD_eq
  intro i bound
  have place : i / 8 * 8 + i % 8 = i := by omega
  rw [getLsbD_assemble _ n i (by omega) bound, byteAt, BitVec.getLsbD_extractLsb', place]
  simp [show i < n * 8 by omega, Nat.mod_lt]

/-- The bytes of an assembled word are those it was put together from. -/
theorem byteAt_assemble (byte : Nat → BitVec 8) {n k : Nat} (inside : n * 8 ≤ w) (listed : k < n) :
    byteAt (assemble w byte n) k = byte k := by
  apply BitVec.eq_of_getLsbD_eq
  intro j small
  have place : (k * 8 + j) / 8 = k := by omega
  have offset : (k * 8 + j) % 8 = j := by omega
  rw [byteAt, BitVec.getLsbD_extractLsb', getLsbD_assemble byte n _ inside (by omega), place,
    offset]
  simp [small, show k * 8 + j < n * 8 by omega]

end Foundation.LittleEndian
