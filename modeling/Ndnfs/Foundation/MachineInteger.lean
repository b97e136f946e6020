import Mathlib.Algebra.Group.Nat.Defs
import Mathlib.Algebra.Ring.Int.Defs
import Mathlib.Tactic.Common

namespace Ndnfs.MachineInteger

/-- The conversion to a 32-bit int keeps the low 32 bits in two's complement. -/
def toInt (value : Int) : Int := value.bmod (2 ^ 32)

/-- The conversion to uint64_t keeps the low 64 bits. -/
def toUInt64 (value : Int) : Nat := (value % 2 ^ 64).toNat

/-- The left shift of an int drops the bits that leave the int. -/
def shiftLeft (value : Int) (count : Nat) : Int := toInt (value * 2 ^ count)

/-- The right shift of an int keeps the sign. -/
def shiftRight (value : Int) (count : Nat) : Int := value / 2 ^ count

/-- This is the range of a 32-bit int. -/
def IsInt (value : Int) : Prop := -2 ^ 31 ≤ value ∧ value < 2 ^ 31

instance (value : Int) : Decidable (IsInt value) := inferInstanceAs (Decidable (_ ∧ _))

theorem toInt_isInt (value : Int) : IsInt (toInt value) := by
  unfold toInt IsInt
  have lower := Int.le_bmod (x := value) (m := 2 ^ 32) (by decide)
  have upper := Int.bmod_lt (x := value) (m := 2 ^ 32) (by decide)
  omega

/-- The conversion keeps each value of the range. -/
theorem toInt_of_isInt {value : Int} (range : IsInt value) : toInt value = value := by
  unfold IsInt at range
  unfold toInt
  rw [Int.bmod_def]
  split <;> omega

/-- A number below 2^31 is kept. -/
theorem toInt_natCast {number : Nat} (small : number < 2 ^ 31) : toInt number = number := by
  apply toInt_of_isInt
  unfold IsInt
  omega

@[simp] theorem toInt_toInt (value : Int) : toInt (toInt value) = toInt value :=
  toInt_of_isInt (toInt_isInt value)

/-- An int that is increased holds the number of the steps modulo 2^32. -/
theorem toInt_add_one (number : Nat) : toInt (toInt number + 1) = toInt (number + 1 : Nat) := by
  unfold toInt
  rw [Int.bmod_add_bmod]
  rfl

theorem toInt_inj {first second : Nat} (small : first < 2 ^ 32) (small' : second < 2 ^ 32)
    (same : toInt first = toInt second) : first = second := by
  unfold toInt at same
  rw [Int.bmod_def, Int.bmod_def] at same
  split at same <;> split at same <;> omega

theorem toUInt64_lt (value : Int) : toUInt64 value < 2 ^ 64 := by
  unfold toUInt64
  omega

/-- The way through uint64_t and back keeps an int. -/
theorem toInt_toUInt64 {value : Int} (range : IsInt value) : toInt (toUInt64 value) = value := by
  unfold IsInt at range
  unfold toInt toUInt64
  rw [Int.bmod_def]
  split <;> omega

/-- A shift that stays in the range is a multiplication. -/
theorem shiftLeft_of_isInt {value : Int} {count : Nat} (range : IsInt (value * 2 ^ count)) :
    shiftLeft value count = value * 2 ^ count :=
  toInt_of_isInt range

end Ndnfs.MachineInteger
