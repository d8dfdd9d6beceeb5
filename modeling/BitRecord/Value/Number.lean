/-
# Numbers

Integers, truths and numbers with a fraction can be compared with each other. A
truth counts as zero or one. Only the first two can count bytes, whatever the
value of a number with a fraction.
-/

import BitRecord.Decimal.Text
import BitRecord.Text.DigitLimit

namespace BitRecord

/-- A number of a caller. -/
inductive Number where
  | integer (value : Int)
  | truth (value : Bool)
  | decimal (value : Binary64)
  deriving DecidableEq, Repr

namespace Number

/-- The text of a number. -/
def describe : Number → String
  | integer value => toString value
  | truth value => if value then "True" else "False"
  | decimal value => Decimal.text value

/-- Whether a number has a text: an integer may have too many digits for one. -/
def canWrite : Number → Bool
  | integer value => DigitLimit.canWrite value
  | truth _ | decimal _ => true

/-- The integer that a number stands for where something is counted. -/
def count? : Number → Option Int
  | integer value => some value
  | truth value => some value.toInt
  | decimal _ => none

/-- The order of a number and an integer, `none` for the value that is no number. -/
def compareInt? (number : Number) (other : Int) : Option Ordering :=
  match number with
  | integer value => some (compare value other)
  | truth value => some (compare value.toInt other)
  | decimal value => value.compareInt? other

/-- Whether a number is less than an integer. -/
def isLess (number : Number) (other : Int) : Bool := number.compareInt? other = some .lt

/-- Whether a number is greater than an integer. -/
def isGreater (number : Number) (other : Int) : Bool := number.compareInt? other = some .gt

/-- The sum of a number and an integer. -/
def addInt (number : Number) (other : Int) : Number :=
  match number with
  | integer value => integer (value + other)
  | truth value => integer (value.toInt + other)
  | decimal value => decimal (value.addInt other)

@[simp]
theorem isLess_integer (value other : Int) :
    (integer value).isLess other = decide (value < other) := by
  simp [isLess, compareInt?, Int.compare_eq_lt]

@[simp]
theorem isGreater_integer (value other : Int) :
    (integer value).isGreater other = decide (other < value) := by
  simp [isGreater, compareInt?, Int.compare_eq_gt]

variable {number : Number} {value : Int}

/-- Where `count?` gives an integer, `compareInt?` compares that integer. -/
theorem compareInt?_of_count? (counts : number.count? = some value) (other : Int) :
    number.compareInt? other = some (compare value other) := by
  cases number with
  | integer own | truth own =>
      obtain rfl := Option.some.inj counts
      rfl
  | decimal own => contradiction

theorem isLess_of_count? (counts : number.count? = some value) (other : Int) :
    number.isLess other = decide (value < other) := by
  simp [isLess, compareInt?_of_count? counts, Int.compare_eq_lt]

theorem isGreater_of_count? (counts : number.count? = some value) (other : Int) :
    number.isGreater other = decide (other < value) := by
  simp [isGreater, compareInt?_of_count? counts, Int.compare_eq_gt]

/-- Where `count?` gives an integer with a text, `canWrite` holds of the number. -/
theorem canWrite_of_count? (counts : number.count? = some value) :
    number.canWrite = DigitLimit.canWrite value := by
  cases number with
  | integer own =>
      obtain rfl := Option.some.inj counts
      rfl
  | truth own =>
      obtain rfl := Option.some.inj counts
      have small : own.toInt.natAbs ≤ 1 := by cases own <;> decide
      exact (DigitLimit.canWrite_iff.mpr (Nat.lt_of_le_of_lt small DigitLimit.one_lt_bound)).symm
  | decimal own => contradiction

/-- `count?` of a sum is the sum of the integers. -/
theorem count?_addInt (counts : number.count? = some value) (other : Int) :
    (number.addInt other).count? = some (value + other) := by
  cases number with
  | integer own | truth own =>
      obtain rfl := Option.some.inj counts
      rfl
  | decimal own => contradiction

end Number

end BitRecord
