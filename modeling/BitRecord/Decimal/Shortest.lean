/-
# Shortest decimals

All decimals in an interval around a binary number are nearer to it than to any
other binary number and so stand for it. The shortest one is found grid by grid,
from the place of the leading digit downwards: on each grid only the two
neighbours of the number can be the one, the nearer of them if both stand for
the number, and the even one if both are equally near.
-/

import BitRecord.Decimal.Binary64

namespace BitRecord

/-- Digits times a power of ten. -/
structure Decimal where
  digits : Nat
  exponent : Int
  deriving DecidableEq, Repr

/-- A number among the decimals that stand for it, all counted in the same small parts. -/
structure Neighbourhood where
  /-- The parts from one point of the decimal grid to the next. -/
  step : Nat
  /-- The parts up to the lower end. -/
  low : Nat
  /-- The parts up to the number. -/
  centre : Nat
  /-- The parts up to the upper end. -/
  high : Nat
  /-- The ends stand for the number as well. -/
  closed : Bool

namespace Neighbourhood

/-- The neighbourhood of a binary number on the grid of the multiples of `10 ^ place`. A quarter of
the unit of the mantissa is the common measure: the ends are half a unit away, and the lower
one only a quarter where the numbers below are twice as dense. -/
def on (mantissa : Nat) (exponent place : Int) : Neighbourhood :=
  let parts := 2 ^ (exponent - 2).toNat * 10 ^ (-place).toNat
  let denserBelow :=
    mantissa = 2 ^ (Binary64.mantissaBits - 1) ∧ Binary64.leastExponent < exponent
  { step := 2 ^ (2 - exponent).toNat * 10 ^ place.toNat
    low := (4 * mantissa - if denserBelow then 1 else 2) * parts
    centre := 4 * mantissa * parts
    high := (4 * mantissa + 2) * parts
    closed := mantissa % 2 = 0 }

/-- Whether a point of the grid stands for the number. -/
def contains (around : Neighbourhood) (point : Nat) : Bool :=
  let place := point * around.step
  (around.low < place && place < around.high)
    || (around.closed && (place == around.low || place == around.high))

/-- The point of the grid that stands for the number, the better one if there are two. -/
def nearest? (around : Neighbourhood) : Option Nat :=
  let below := around.centre / around.step
  let nearer := roundDiv around.centre around.step
  let farther := if nearer = below then below + 1 else below
  [nearer, farther].find? around.contains

end Neighbourhood

namespace Decimal

/-- The number of decimal digits of a number. -/
def digitCount (number : Nat) : Nat := (Nat.toDigits 10 number).length

/-- The place of the leading digit of a quotient that is not zero. -/
def leadingPlace (numerator denominator : Nat) : Int :=
  if denominator ≤ numerator then digitCount (numerator / denominator) - 1
  else -digitCount ((denominator - 1) / numerator)

/-- The decimal that is exactly a mantissa times a power of two. -/
def exact (mantissa : Nat) (exponent : Int) : Decimal :=
  if 0 ≤ exponent then ⟨mantissa * 2 ^ exponent.toNat, 0⟩
  else ⟨mantissa * 5 ^ (-exponent).toNat, exponent⟩

/-- The number of significant digits that determine a binary number. -/
def mostDigits : Nat := 17

/-- The decimal with the fewest digits that stands for a number other than zero. -/
def shortest (mantissa : Nat) (exponent : Int) : Decimal :=
  let (numerator, denominator) := Binary64.inUnits mantissa 1 (-exponent)
  let leading := leadingPlace numerator denominator
  let found := (List.range mostDigits).findSome? fun further : Nat =>
    (Neighbourhood.on mantissa exponent (leading - further)).nearest?.map fun digits =>
      Decimal.mk digits (leading - further)
  found.getD (exact mantissa exponent)

end Decimal

end BitRecord
