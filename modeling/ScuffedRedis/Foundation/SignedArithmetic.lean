import Mathlib

/-!
# Signed machine arithmetic

An operation on signed words whose exact result fits in a word gives that result.
-/
namespace Foundation

variable {a b : Int}

section Int32

variable {x y : Int32} (left : x.toInt = a) (right : y.toInt = b)

include left right

theorem toInt32_add (lower : -2 ^ 31 ≤ a + b) (upper : a + b < 2 ^ 31) :
    (x + y).toInt = a + b := by
  rw [Int32.toInt_add, left, right, Int.bmod_eq_of_le (by omega) (by omega)]

theorem toInt32_sub (lower : -2 ^ 31 ≤ a - b) (upper : a - b < 2 ^ 31) :
    (x - y).toInt = a - b := by
  rw [Int32.toInt_sub, left, right, Int.bmod_eq_of_le (by omega) (by omega)]

end Int32

section Int64

variable {x y : Int64} (left : x.toInt = a) (right : y.toInt = b)

include left right

theorem toInt64_add (lower : -2 ^ 63 ≤ a + b) (upper : a + b < 2 ^ 63) :
    (x + y).toInt = a + b := by
  rw [Int64.toInt_add, left, right, Int.bmod_eq_of_le (by omega) (by omega)]

theorem toInt64_sub (lower : -2 ^ 63 ≤ a - b) (upper : a - b < 2 ^ 63) :
    (x - y).toInt = a - b := by
  rw [Int64.toInt_sub, left, right, Int.bmod_eq_of_le (by omega) (by omega)]

theorem toInt64_mul (lower : -2 ^ 63 ≤ a * b) (upper : a * b < 2 ^ 63) :
    (x * y).toInt = a * b := by
  rw [Int64.toInt_mul, left, right, Int.bmod_eq_of_le (by omega) (by omega)]

end Int64
end Foundation
