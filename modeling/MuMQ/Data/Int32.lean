import Mathlib.Algebra.Group.Int.Defs
import Mathlib.Algebra.Group.Nat.Defs

namespace MuMQ.Data

/-! Integers of 32 bits that do not overflow. -/

variable {left right : Int32}

theorem toInt_add_of_lt (lower : -2 ^ 31 ≤ left.toInt + right.toInt)
    (upper : left.toInt + right.toInt < 2 ^ 31) :
    (left + right).toInt = left.toInt + right.toInt := by
  rw [Int32.toInt_add]
  exact Int.bmod_eq_of_le (by omega) (by omega)

theorem toInt_sub_of_lt (lower : -2 ^ 31 ≤ left.toInt - right.toInt)
    (upper : left.toInt - right.toInt < 2 ^ 31) :
    (left - right).toInt = left.toInt - right.toInt := by
  rw [Int32.toInt_sub]
  exact Int.bmod_eq_of_le (by omega) (by omega)

theorem toInt_mul_of_lt (lower : -2 ^ 31 ≤ left.toInt * right.toInt)
    (upper : left.toInt * right.toInt < 2 ^ 31) :
    (left * right).toInt = left.toInt * right.toInt := by
  rw [Int32.toInt_mul]
  exact Int.bmod_eq_of_le (by omega) (by omega)

theorem exists_toInt (value : Nat) (small : value < 2 ^ 31) :
    ∃ number : Int32, number.toInt = value :=
  ⟨.ofInt value, Int32.toInt_ofInt_of_le (by omega) (by omega)⟩

theorem toInt_pos (positive : 0 < left) : 0 < left.toInt := Int32.lt_iff_toInt_lt.mp positive

theorem toInt_add_one (upper : left.toInt + 1 < 2 ^ 31) : (left + 1).toInt = left.toInt + 1 := by
  have lower := left.le_toInt
  have one : (1 : Int32).toInt = 1 := rfl
  rw [toInt_add_of_lt (by omega) (by omega), one]

theorem toInt_sub_one (lower : -2 ^ 31 < left.toInt) : (left - 1).toInt = left.toInt - 1 := by
  have upper := left.toInt_lt
  have one : (1 : Int32).toInt = 1 := rfl
  rw [toInt_sub_of_lt (by omega) (by omega), one]

/-- The count of a loop does not overflow in front of its limit. -/
theorem toInt_succ_of_lt (less : left < right) : (left + 1).toInt = left.toInt + 1 := by
  have upper := right.toInt_lt
  have inside := Int32.lt_iff_toInt_lt.mp less
  exact toInt_add_one (by omega)

end MuMQ.Data
