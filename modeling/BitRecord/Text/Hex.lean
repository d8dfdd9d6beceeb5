/-
# Hexadecimal text

Bytes as pairs of lower case hexadecimal digits, and back. The reader accepts
both cases and lets blanks stand in front of a pair, but not inside one; it
reports the position of the first character that cannot stand where it stands.
-/

import BitRecord.Bits.Basic

namespace BitRecord.Hex

/-- The lower case digit of a number below sixteen. -/
def digit (value : Nat) : Char := Nat.digitChar value

/-- The two digits of a byte. -/
def ofByte (byte : UInt8) : List Char :=
  [digit (byte.toNat / 16), digit (byte.toNat % 16)]

/-- The digits of a byte string. -/
def ofBytes (bytes : Bytes) : String :=
  String.ofList (bytes.flatMap ofByte)

/-- The lowest `width` hexadecimal digits of a number, the most significant in front. -/
def ofNat : (width value : Nat) → List Char
  | 0, _ => []
  | width + 1, value => digit (value / 16 ^ width % 16) :: ofNat width value

/-- The value of a hexadecimal digit of either case. -/
def digit? (character : Char) : Option Nat :=
  if '0' ≤ character ∧ character ≤ '9' then some (character.toNat - '0'.toNat)
  else if 'a' ≤ character ∧ character ≤ 'f' then some (character.toNat - 'a'.toNat + 10)
  else if 'A' ≤ character ∧ character ≤ 'F' then some (character.toNat - 'A'.toNat + 10)
  else none

/-- The six blanks that separate things in plain text: tab, line feed, vertical tab, form feed,
carriage return and space. -/
def isBlank (character : Char) : Bool :=
  character == ' ' || ('\t' ≤ character && character ≤ '\r')

/-- Reads pairs of digits from a text that starts at `position`; a failure is the position of the
character at fault, or of the end when the text stops inside a pair. -/
def readPairs (position : Nat) : List Char → Except Nat Bytes
  | [] => .ok []
  | [character] =>
      if isBlank character then .ok []
      else if (digit? character).isSome then .error (position + 1)
      else .error position
  | character :: following :: rest =>
      if isBlank character then readPairs (position + 1) (following :: rest)
      else
        match digit? character, digit? following with
        | none, _ => .error position
        | some _, none => .error (position + 1)
        | some high, some low =>
            (readPairs (position + 2) rest).map (UInt8.ofNat (16 * high + low) :: ·)

/-- Reads a byte string. A character outside of the first 128 is at fault before any other. -/
def toBytes (text : List Char) : Except Nat Bytes :=
  match text.findIdx? (fun character => 128 ≤ character.toNat) with
  | some position => .error position
  | none => readPairs 0 text

end BitRecord.Hex
