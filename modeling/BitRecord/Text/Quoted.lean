/-
# Quoted text

Byte strings and texts inside quotation marks, written so that different
contents never look the same. The mark is the apostrophe, unless the content has
an apostrophe and no double quotation mark. A backslash stands in front of the
mark and of itself; tab, line feed and carriage return have short escapes, and
whatever cannot be shown is written by its number.
-/

import BitRecord.Text.Hex
import BitRecord.Text.Printable

namespace BitRecord.Quoted

/-- The quotation mark around a content that has the given marks in it. -/
def mark (hasApostrophe hasDouble : Bool) : Char :=
  if hasApostrophe && !hasDouble then '"' else '\''

/-- The short escape of a character, if it has one: those of the backslash, the mark itself, tab,
line feed and carriage return. -/
def shortEscape? (mark character : Char) : Option (List Char) :=
  if character = '\\' ∨ character = mark then some ['\\', character]
  else if character = '\t' then some ['\\', 't']
  else if character = '\n' then some ['\\', 'n']
  else if character = '\r' then some ['\\', 'r']
  else none

/-- A byte inside of quotation marks: itself when it is a visible ASCII character or a space. -/
def byte (mark : Char) (value : UInt8) : List Char :=
  let character := Char.ofNat value.toNat
  match shortEscape? mark character with
  | some escape => escape
  | none =>
      if 32 ≤ value.toNat ∧ value.toNat < 127 then [character]
      else '\\' :: 'x' :: Hex.ofNat 2 value.toNat

/-- A character inside of quotation marks: itself when it is printable. -/
def character (mark value : Char) : List Char :=
  match shortEscape? mark value with
  | some escape => escape
  | none =>
      if Printable.isPrintable value then [value]
      else if value.toNat < 0x100 then '\\' :: 'x' :: Hex.ofNat 2 value.toNat
      else if value.toNat < 0x10000 then '\\' :: 'u' :: Hex.ofNat 4 value.toNat
      else '\\' :: 'U' :: Hex.ofNat 8 value.toNat

/-- The mark for a byte string. -/
def bytesMark (bytes : Bytes) : Char := mark (bytes.contains 39) (bytes.contains 34)

/-- The characters of a quoted byte string, with the letter `b` in front of the mark. -/
def bytesCharacters (bytes : Bytes) : List Char :=
  'b' :: bytesMark bytes :: bytes.flatMap (byte (bytesMark bytes)) ++ [bytesMark bytes]

/-- A quoted byte string. -/
def ofBytes (bytes : Bytes) : String := String.ofList (bytesCharacters bytes)

/-- A quoted string of bytes that can change. In it an apostrophe has its backslash even inside of
double quotation marks. -/
def ofByteArray (bytes : Bytes) : String :=
  String.ofList ('b' :: bytesMark bytes :: bytes.flatMap (byte '\'') ++ [bytesMark bytes])

/-- The mark for a text. -/
def textMark (text : List Char) : Char := mark (text.contains '\'') (text.contains '"')

/-- The characters of a quoted text. -/
def textCharacters (text : List Char) : List Char :=
  textMark text :: text.flatMap (character (textMark text)) ++ [textMark text]

/-- A quoted text. -/
def ofText (text : String) : String := String.ofList (textCharacters text.toList)

end BitRecord.Quoted
