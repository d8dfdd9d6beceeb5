/-
# Two's complement

Integers of both signs in a number of bits. A negative integer goes on to the
left with ones for ever, and its low bits are its form in any width that has
room for it.
-/

import BitRecord.Bits.Basic

namespace BitRecord

/-- The low bits of an integer. -/
def lowBits (number : Int) (width : Nat) : Nat := (number % 2 ^ width).toNat

/-- The low bits of an integer are below the bound of their width. -/
theorem lowBits_lt (number : Int) (width : Nat) : lowBits number width < 2 ^ width := by
  have bound : (0 : Int) < 2 ^ width := Int.pow_pos (by omega)
  have small := Int.emod_lt_of_pos number bound
  have natural := Int.emod_nonneg number (Int.ne_of_gt bound)
  exact (Int.toNat_lt natural).mpr (by exact_mod_cast small)

/-- Whether an integer is in the signed or the unsigned range of a width. It is decided by shifts,
because `2 ^ width` is a number as long as the width. -/
def fitsWidth (width : Nat) : Int → Bool
  | .ofNat number => number >>> width == 0
  | .negSucc number => number >>> (width - 1) == 0

/-- The two's complement of an integer, which is the integer itself unless it is negative. -/
def twosComplement (width : Nat) : Int → Nat
  | .ofNat number => number
  | .negSucc number => 2 ^ width - 1 - number

private theorem shiftRight_eq_zero_iff (number amount : Nat) :
    number >>> amount = 0 ↔ number < 2 ^ amount := by
  rw [Nat.shiftRight_eq_div_pow, Nat.div_eq_zero_iff]
  have := Nat.two_pow_pos amount
  omega

/-- `fitsWidth` is the union of the signed and the unsigned range. -/
theorem fitsWidth_iff (width : Nat) (number : Int) :
    fitsWidth width number = true ↔ -(2 ^ (width - 1)) ≤ number ∧ number < 2 ^ width := by
  have signed : (0 : Int) < 2 ^ (width - 1) := Int.pow_pos (by omega)
  have unsigned : (0 : Int) < 2 ^ width := Int.pow_pos (by omega)
  cases number with
  | ofNat number =>
      have cast : (number : Int) < 2 ^ width ↔ number < 2 ^ width := by exact_mod_cast Iff.rfl
      simp only [fitsWidth, beq_iff_eq, shiftRight_eq_zero_iff, Int.ofNat_eq_natCast]
      omega
  | negSucc number =>
      have cast : (number : Int) < 2 ^ (width - 1) ↔ number < 2 ^ (width - 1) := by
        exact_mod_cast Iff.rfl
      simp only [fitsWidth, beq_iff_eq, shiftRight_eq_zero_iff, Int.negSucc_eq]
      omega

/-- On integers that fit, `twosComplement` is `lowBits`. -/
theorem twosComplement_eq_lowBits {width : Nat} {number : Int}
    (fits : fitsWidth width number = true) :
    twosComplement width number = lowBits number width := by
  obtain ⟨lower, upper⟩ := (fitsWidth_iff width number).mp fits
  have grows : (2 : Int) ^ (width - 1) ≤ 2 ^ width := by
    exact_mod_cast Nat.pow_le_pow_right (by omega) (Nat.sub_le width 1)
  cases number with
  | ofNat number =>
      change (number : Int) < 2 ^ width at upper
      change number = ((number : Int) % 2 ^ width).toNat
      rw [Int.emod_eq_of_lt (Int.natCast_nonneg number) upper, Int.toNat_natCast]
  | negSucc number =>
      have cast : ((2 ^ width : Nat) : Int) = 2 ^ width := by norm_cast
      have form : Int.negSucc number = -(number + 1) := Int.negSucc_eq number
      change 2 ^ width - 1 - number = _
      rw [lowBits, form, ← Int.add_emod_right, Int.emod_eq_of_lt (by omega) (by omega)]
      omega

end BitRecord
