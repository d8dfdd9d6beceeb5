/-
# Integers as they are written

An integer is written in decimal digits, or in those of another base behind the
mark of the base. Digits may be grouped by single underscores, a sign may stand
in front, and blanks may stand around the whole. A decimal number other than
zero does not start with a zero. Decimal digits are counted before anything
behind them is looked at, so that too many of them are refused as such even in a
text that writes no integer.
-/

import BitRecord.Text.DigitLimit
import BitRecord.Text.Digits
import BitRecord.Text.Hex

namespace BitRecord.Numeral

/-- The value of a digit, where the letters go on behind the nine. -/
def digitValue? (character : Char) : Option Nat :=
  if '0' ≤ character ∧ character ≤ '9' then some (character.toNat - '0'.toNat)
  else if 'a' ≤ character ∧ character ≤ 'z' then some (character.toNat - 'a'.toNat + 10)
  else if 'A' ≤ character ∧ character ≤ 'Z' then some (character.toNat - 'A'.toNat + 10)
  else none

/-- The value of a digit of a base. -/
def digit? (base : Nat) (character : Char) : Option Nat :=
  (digitValue? character).filter (· < base)

/-- Reads on behind a digit: to the end, or over at most one underscore to the next digit. -/
def continueDigits (base number : Nat) : List Char → Option Nat
  | [] => some number
  | '_' :: character :: rest =>
      match digit? base character with
      | some digit => continueDigits base (base * number + digit) rest
      | none => none
  | character :: rest =>
      match digit? base character with
      | some digit => continueDigits base (base * number + digit) rest
      | none => none

/-- Reads digits of a base up to the end of the text. There is at least one, in front. -/
def readDigits (base : Nat) : List Char → Option Nat
  | [] => none
  | character :: rest =>
      match digit? base character with
      | some digit => continueDigits base digit rest
      | none => none

/-- Leaves out one underscore in front. -/
def skipUnderscore : List Char → List Char
  | '_' :: rest => rest
  | text => text

/-- The base that a letter behind a zero stands for. -/
def base? : Char → Option Nat
  | 'x' | 'X' => some 16
  | 'o' | 'O' => some 8
  | 'b' | 'B' => some 2
  | _ => none

/-- Reads a number without a sign. -/
def readMagnitude (text : List Char) : Option Nat :=
  match text with
  | '0' :: letter :: rest =>
      match base? letter with
      | some base => readDigits base (skipUnderscore rest)
      | none => (readDigits 10 text).filter (· = 0)
  | text => readDigits 10 text

/-- Reads a number with a sign or without one, of any number of digits. -/
def readSigned : List Char → Option Int
  | '-' :: rest => (readMagnitude rest).map fun number => -(number : Int)
  | '+' :: rest => (readMagnitude rest).map fun number => (number : Int)
  | text => (readMagnitude text).map fun number => (number : Int)

/-- Leaves out the blanks at both ends. -/
def trim (text : List Char) : List Char :=
  ((text.dropWhile Hex.isBlank).reverse.dropWhile Hex.isBlank).reverse

/-- The text without a sign in front. -/
def withoutSign : List Char → List Char
  | '-' :: rest | '+' :: rest => rest
  | text => text

/-- The number of decimal digits behind a digit, up to a character of another kind; underscores
are not counted. An underscore that is not between two digits leaves nothing to count. -/
def continueCount (count : Nat) : List Char → Nat
  | [] => count
  | ['_'] => 0
  | '_' :: character :: rest =>
      if (digit? 10 character).isSome then continueCount (count + 1) rest else 0
  | character :: rest =>
      if (digit? 10 character).isSome then continueCount (count + 1) rest else count

/-- The number of decimal digits at the front of a number without a sign. The digits of another
base are not counted. -/
def decimalCount : List Char → Nat
  | [] => 0
  | first :: rest =>
      if first = '0' ∧ (rest.head?.bind base?).isSome then 0
      else if (digit? 10 first).isSome then continueCount 1 rest
      else 0

/-- Why a text is read as no integer. -/
inductive Flaw where
  /-- The text writes no integer. -/
  | malformed
  /-- The text has more decimal digits than are converted. -/
  | tooLong (digits : Nat)
  deriving DecidableEq, Repr

/-- Reads an integer of the first 128 characters without blanks around it. -/
def readPlain (text : List Char) : Except Flaw Int :=
  let count := decimalCount (withoutSign text)
  if !DigitLimit.canRead count then .error (.tooLong count)
  else
    match readSigned text with
    | some integer => .ok integer
    | none => .error .malformed

/-- Reads an integer. -/
def read (text : List Char) : Except Flaw Int := readPlain (trim (text.map Digits.plain))

end BitRecord.Numeral
