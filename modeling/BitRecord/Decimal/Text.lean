/-
# Decimals as text

A number is written with the fewest digits that stand for it: with a point among
them while the point is near, and otherwise with a power of ten of two digits or
more.
-/

import BitRecord.Decimal.Shortest

namespace BitRecord.Decimal

/-- The digits without the zeros at their end. -/
def significant (digits : List Char) : List Char :=
  (digits.reverse.dropWhile (· == '0')).reverse

/-- Digits with a point after the first `point` of them. Zeros fill what is missing on either
side, and there is at least one digit behind the point. -/
def positional (digits : List Char) (point : Int) : List Char :=
  if point ≤ 0 then '0' :: '.' :: (List.replicate (-point).toNat '0' ++ digits)
  else
    let whole := digits.take point.toNat
    let zeros := List.replicate (point.toNat - digits.length) '0'
    let fraction := digits.drop point.toNat
    whole ++ zeros ++ '.' :: if fraction.isEmpty then ['0'] else fraction

/-- An exponent: its sign and at least two digits. -/
def exponentText (exponent : Int) : List Char :=
  let digits := Nat.toDigits 10 exponent.natAbs
  (if exponent < 0 then '-' else '+') :: (List.replicate (2 - digits.length) '0' ++ digits)

/-- Digits with a point after the first one, if others follow, times a power of ten. -/
def scientific (digits : List Char) (exponent : Int) : List Char :=
  let fraction := digits.drop 1
  digits.take 1 ++ (if fraction.isEmpty then [] else '.' :: fraction) ++ 'e'
    :: exponentText exponent

/-- Digits whose point stands after the first `point` of them. Positional are the numbers from a
ten-thousandth up to what has sixteen digits. -/
def layout (digits : List Char) (point : Int) : List Char :=
  if -4 < point ∧ point ≤ 16 then positional digits point else scientific digits (point - 1)

/-- The characters of a number without its sign. -/
def magnitudeText (mantissa : Nat) (exponent : Int) : List Char :=
  if mantissa = 0 then ['0', '.', '0']
  else
    let decimal := shortest mantissa exponent
    let digits := Nat.toDigits 10 decimal.digits
    layout (significant digits) (digits.length + decimal.exponent)

/-- The text of a number. -/
def text : Binary64 → String
  | .nan => "nan"
  | .infinite negative => if negative then "-inf" else "inf"
  | .finite negative mantissa exponent =>
      (if negative then "-" else "") ++ String.ofList (magnitudeText mantissa exponent)

end BitRecord.Decimal
