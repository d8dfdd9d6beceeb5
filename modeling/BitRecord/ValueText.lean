/-
# Values on a command line

Values are written as single words: a text or hexadecimal digits behind a mark,
integers between commas, or one integer. What was read from a record is shown as
a quoted byte string, as integers between commas, or as one integer in decimal
and hexadecimal digits. An integer with too many decimal digits is neither read
nor shown.
-/

import BitRecord.Argument.Basic
import BitRecord.Fault
import BitRecord.Text.Numeral

namespace BitRecord.ValueText

/-- The cause for which `parse` or `format` fails. -/
inductive Refusal where
  /-- The text is no integer. -/
  | notInteger (text : List Char)
  /-- The text has more decimal digits than are read. -/
  | longNumeral (digits : Nat)
  /-- The value has an integer with more decimal digits than are written. -/
  | longInteger
  /-- The character at a position is no hexadecimal digit. -/
  | notHexadecimal (position : Nat)
  /-- A value of the class has no hexadecimal digits. -/
  | noDigits (given : ValueClass)

namespace Refusal

/-- The number of characters of a quoted text that are shown. -/
def shownCharacters : Nat := 200

/-- The family of a refusal. -/
def family : Refusal → Family
  | notInteger _ | longNumeral _ | longInteger | notHexadecimal _ => .wrongValue
  | noDigits .text | noDigits .decimal => .wrongValue
  | noDigits _ => .wrongClass

/-- The message of a refusal. -/
def message : Refusal → String
  | notInteger text =>
      "invalid literal for int() with base 0: "
        ++ String.ofList ((Quoted.textCharacters text).take shownCharacters)
  | longNumeral digits => DigitLimit.readMessage digits
  | longInteger => DigitLimit.writeMessage
  | notHexadecimal position =>
      s!"non-hexadecimal number found in fromhex() arg at position {position}"
  | noDigits .text => "Unknown format code 'x' for object of type 'str'"
  | noDigits .decimal => "Unknown format code 'x' for object of type 'float'"
  | noDigits given =>
      "unsupported format string passed to " ++ given.qualifiedName ++ ".__format__"

end Refusal

/-- The parts of a text between separators. -/
def split (separator : Char) : List Char → List (List Char)
  | [] => [[]]
  | character :: rest =>
      if character = separator then [] :: split separator rest
      else
        match split separator rest with
        | [] => [[character]]
        | first :: others => (character :: first) :: others

/-- Reads one integer. -/
def parseInteger (text : List Char) : Except Refusal Int :=
  match Numeral.read text with
  | .ok number => .ok number
  | .error .malformed => .error (.notInteger text)
  | .error (.tooLong digits) => .error (.longNumeral digits)

/-- Reads bytes in hexadecimal digits. -/
def parseHex (text : List Char) : Except Refusal Bytes :=
  (Hex.toBytes text).mapError .notHexadecimal

/-- Reads integers between commas; nothing between two commas is no integer. -/
def parseIntegers (text : List Char) : Except Refusal (List Int) :=
  ((split ',' text).filter fun part => !part.isEmpty).mapM parseInteger

/-- Reads a value. -/
def parse (text : List Char) : Except Refusal Value :=
  match text with
  | 's' :: ':' :: rest => .ok (.buffer .bytes (String.ofList rest).toUTF8.data.toList)
  | 'x' :: ':' :: rest => (parseHex rest).map (.buffer .bytes)
  | text =>
      if text.contains ',' then
        (parseIntegers text).map fun numbers => .list (numbers.map .integer)
      else (parseInteger text).map .integer

/-- The hexadecimal digits of an integer, behind its sign. -/
def hexadecimal (number : Int) : String :=
  (if number < 0 then "-" else "") ++ String.ofList (Nat.toDigits 16 number.natAbs)

/-- The decimal text of an integer with its hexadecimal digits in parentheses. -/
def formatInteger (decimal : String) (number : Int) : String :=
  decimal ++ " (0x" ++ hexadecimal number ++ ")"

/-- The text of a value. The decimal digits of its integers come first, so too many of them are
refused before its class is. -/
def format (value : Value) : Except Refusal String :=
  if !value.canWrite then .error .longInteger
  else
    match value with
    | .buffer .bytes data => .ok (Quoted.ofBytes data)
    | .list items => .ok (",".intercalate (items.map Value.plain))
    | .integer number => .ok (formatInteger (toString number) number)
    | .truth value => .ok (formatInteger (Value.truth value).plain (if value then 1 else 0))
    | value => .error (.noDigits value.valueClass)

/-- The texts of values up to the first one that has none, and why it has none. -/
def formatAll : List Value → List String × Option Refusal
  | [] => ([], none)
  | value :: values =>
      match format value with
      | .error refusal => ([], some refusal)
      | .ok text => (text :: (formatAll values).1, (formatAll values).2)

end BitRecord.ValueText
