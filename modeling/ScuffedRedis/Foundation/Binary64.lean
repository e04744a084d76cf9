import Mathlib

/-!
# Comparison of binary64 numbers

A binary64 number is its 64 bits. All numbers but NaN compare as the integers that their sign and
magnitude bits spell, so that the two zeros are equal and the infinities are the extremes. No
comparison with NaN holds, except that NaN differs from everything.
-/
namespace Foundation

structure Binary64 where
  bits : UInt64
  deriving DecidableEq, Repr

namespace Binary64

/-- The bits of the exponent and the fraction. -/
def magnitude (x : Binary64) : Nat := x.bits.toNat % 2 ^ 63

/-- All exponent bits are set, and some bit of the fraction is. -/
def isNaN (x : Binary64) : Bool := decide (2047 * 2 ^ 52 < x.magnitude)

/-- The place of a number in the order. -/
def ordinal (x : Binary64) : Int :=
  if x.bits.toNat < 2 ^ 63 then x.magnitude else -x.magnitude

/-- The operator `<`. -/
def less (x y : Binary64) : Bool := !x.isNaN && !y.isNaN && decide (x.ordinal < y.ordinal)

/-- The operator `!=`. -/
def differs (x y : Binary64) : Bool := x.isNaN || y.isNaN || decide (x.ordinal ≠ y.ordinal)

/-- The operator `<=`. -/
def atMost (x y : Binary64) : Bool := !x.isNaN && !y.isNaN && decide (x.ordinal ≤ y.ordinal)

section Comparison

variable {x y : Binary64}

theorem less_iff (orderedX : x.isNaN = false) (orderedY : y.isNaN = false) :
    x.less y = true ↔ x.ordinal < y.ordinal := by
  simp [less, orderedX, orderedY]

theorem differs_iff (orderedX : x.isNaN = false) (orderedY : y.isNaN = false) :
    x.differs y = true ↔ x.ordinal ≠ y.ordinal := by
  simp [differs, orderedX, orderedY]

theorem atMost_iff : x.atMost y = true ↔
    x.isNaN = false ∧ y.isNaN = false ∧ x.ordinal ≤ y.ordinal := by
  simp [atMost, and_assoc]

/-- Nothing is below NaN or above it. -/
theorem less_eq_false (unordered : x.isNaN = true ∨ y.isNaN = true) : x.less y = false := by
  rcases unordered with unordered | unordered <;> simp [less, unordered]

theorem differs_eq_true (unordered : x.isNaN = true ∨ y.isNaN = true) : x.differs y = true := by
  rcases unordered with unordered | unordered <;> simp [differs, unordered]

end Comparison

/-! ### Some numbers -/

def zero : Binary64 := ⟨0⟩

def one : Binary64 := ⟨0x3FF0000000000000⟩

def infinity : Binary64 := ⟨0x7FF0000000000000⟩

def quietNaN : Binary64 := ⟨0x7FF8000000000000⟩

example : zero.less one = true ∧ one.less infinity = true ∧ infinity.less quietNaN = false ∧
    quietNaN.differs quietNaN = true ∧ zero.differs ⟨0x8000000000000000⟩ = false := by decide

end Binary64
end Foundation
