/-
# Binary fractions

A number with a fraction is a binary number of 64 bits: a mantissa of at most 53
bits times a power of two, an infinity, or the value that is no number at all.
Every quotient has a nearest such number; of two equally near ones the mantissa
decides, which has to be even. A number keeps its mantissa as long as it can, so
equal numbers other than the two zeros are written in the same way.
-/

import BitRecord.Bits.Basic

namespace BitRecord

/-- The quotient rounded to the nearest integer, a half to the even one. -/
def roundDiv (numerator denominator : Nat) : Nat :=
  let quotient := numerator / denominator
  let twice := 2 * (numerator % denominator)
  if twice < denominator ∨ twice = denominator ∧ quotient % 2 = 0 then quotient else quotient + 1

/-- A binary number of 64 bits. -/
inductive Binary64 where
  /-- no number -/
  | nan
  /-- an infinity of one of the two signs -/
  | infinite (negative : Bool)
  /-- a mantissa times a power of two -/
  | finite (negative : Bool) (mantissa : Nat) (exponent : Int)
  deriving DecidableEq, Repr

namespace Binary64

/-- The greatest number of bits of a mantissa. -/
def mantissaBits : Nat := 53

/-- The least exponent, at which mantissas may be short. -/
def leastExponent : Int := -1074

/-- The greatest exponent. -/
def greatestExponent : Int := 971

/-- The zero of a sign. -/
def zero (negative : Bool) : Binary64 := finite negative 0 leastExponent

/-- A quotient counted in units of `2 ^ exponent`. -/
def inUnits (numerator denominator : Nat) (exponent : Int) : Nat × Nat :=
  (numerator * 2 ^ (-exponent).toNat, denominator * 2 ^ exponent.toNat)

/-- The exponent in whose units a quotient fills a mantissa, or the least one when it is too
small for that. -/
def exponentOf (numerator denominator : Nat) : Int :=
  let guess : Int := numerator.log2 - denominator.log2 - mantissaBits
  let (scaled, unit) := inUnits numerator denominator guess
  max leastExponent (if scaled / unit < 2 ^ mantissaBits then guess else guess + 1)

/-- The number nearest to a quotient. -/
def ofQuotient (negative : Bool) (numerator denominator : Nat) : Binary64 :=
  if numerator = 0 then zero negative
  else
    let exponent := exponentOf numerator denominator
    let (scaled, unit) := inUnits numerator denominator exponent
    let mantissa := roundDiv scaled unit
    let (mantissa, exponent) :=
      if mantissa = 2 ^ mantissaBits then (2 ^ (mantissaBits - 1), exponent + 1)
      else (mantissa, exponent)
    if greatestExponent < exponent then infinite negative else finite negative mantissa exponent

/-- An integer with the sign of a number. -/
def withSign (negative : Bool) (magnitude : Nat) : Int :=
  if negative then -magnitude else magnitude

/-- How a number compares with an integer, exactly. No number compares with anything. -/
def compareInt? (value : Binary64) (integer : Int) : Option Ordering :=
  match value with
  | nan => none
  | infinite negative => some (if negative then .lt else .gt)
  | finite negative mantissa exponent =>
      some (compare (withSign negative mantissa * 2 ^ exponent.toNat)
        (integer * 2 ^ (-exponent).toNat))

/-- The sum of a number and an integer, rounded once. -/
def addInt (value : Binary64) (integer : Int) : Binary64 :=
  match value with
  | finite negative mantissa exponent =>
      let unit : Nat := 2 ^ (-exponent).toNat
      let sum := withSign negative mantissa * 2 ^ exponent.toNat + integer * unit
      ofQuotient (decide (sum < 0)) sum.natAbs unit
  | value => value

end Binary64

end BitRecord
