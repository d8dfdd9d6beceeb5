/-
# The limit on decimal digits

Integers are converted to decimal digits and back only up to a number of digits.
For a text its length counts, zeros in front included; for an integer its own
digits count, the sign left out. Bases whose digits are groups of bits have no
limit.
-/

import BitRecord.Bits.Basic

namespace BitRecord.DigitLimit

/-- The greatest number of decimal digits that are converted. -/
def digits : Nat := 4300

/-- The least natural number with more digits, irreducible so that no comparison computes it. -/
@[irreducible]
def bound : Nat := 10 ^ digits

/-- Whether a text of `count` decimal digits is converted to an integer. -/
def canRead (count : Nat) : Bool := decide (count ≤ digits)

/-- Whether an integer is converted to decimal digits. -/
def canWrite (number : Int) : Bool := decide (number.natAbs < bound)

/-- The front of `readMessage` and `writeMessage`. -/
def message : String := s!"Exceeds the limit ({digits} digits) for integer string conversion"

/-- The end of `readMessage` and `writeMessage`. -/
def advice : String := "; use sys.set_int_max_str_digits() to increase the limit"

/-- The message about a text of more digits than are converted. -/
def readMessage (count : Nat) : String := message ++ s!": value has {count} digits" ++ advice

/-- The message about an integer of more digits than are converted. -/
def writeMessage : String := message ++ advice

theorem bound_eq : bound = 10 ^ digits := by
  unfold bound
  exact Eq.refl _

/-- A number below a power of ten within the limit has no more digits than the limit. -/
theorem lt_bound_of_lt_pow {number count : Nat} (below : number < 10 ^ count)
    (few : count ≤ digits) : number < bound := by
  rw [bound_eq]
  exact Nat.lt_of_lt_of_le below (Nat.pow_le_pow_right (by decide) few)

theorem one_lt_bound : 1 < bound :=
  lt_bound_of_lt_pow (show 1 < 10 ^ (1 : Nat) by decide) (by decide)

theorem canRead_iff {count : Nat} : canRead count = true ↔ count ≤ digits := decide_eq_true_iff

theorem canRead_eq_false_iff {count : Nat} : canRead count = false ↔ digits < count := by
  rw [canRead, decide_eq_false_iff_not, Nat.not_le]

theorem canWrite_iff {number : Int} : canWrite number = true ↔ number.natAbs < bound :=
  decide_eq_true_iff

theorem canWrite_eq_false_iff {number : Int} :
    canWrite number = false ↔ bound ≤ number.natAbs := by
  rw [canWrite, decide_eq_false_iff_not, Nat.not_lt]

theorem canWrite_natCast_iff {number : Nat} : canWrite number = true ↔ number < bound :=
  canWrite_iff

theorem canWrite_natCast_eq_false_iff {number : Nat} : canWrite number = false ↔ bound ≤ number :=
  canWrite_eq_false_iff

end BitRecord.DigitLimit
