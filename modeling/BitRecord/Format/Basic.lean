/-
# Formats

A format is a text read into directives. Reading goes through the pieces of the
text from left to right and stops at the first one that is refused; every field
accepted on the way leaves an event. Two rules concern more than one piece: an
escape character at the very end of the text is refused before the literal run
in front of it is looked at, and a character that is too wide is reported by its
place among the characters of its run.
-/

import BitRecord.Format.Piece
import BitRecord.Trace

namespace BitRecord

/-- A text together with the items read from it. -/
structure Format where
  /-- The value that holds the text. -/
  given : Value
  /-- The directives with their positions, in the order of the text. -/
  items : List Item

namespace Format

/-- The directives of a format. -/
def directives (format : Format) : List Directive := format.items.map (·.directive)

/-- The bytes of literal characters, the first of which has the given position. -/
def literalBytes (position : Nat) : List Char → Except Failure Bytes
  | [] => .ok []
  | character :: rest =>
      if character.toNat < 256 then
        (literalBytes (position + 1) rest).map (UInt8.ofNat character.toNat :: ·)
      else .error (.placed (.wideLiteral character) position)

/-- The item of a literal run. -/
def literalItem (position : Nat) (characters : List Char) : Traced Item :=
  ⟨[], (literalBytes position characters).map fun data => ⟨position, .literal data⟩⟩

/-- The item of a field that breaks no rule. The digits of its quantity are converted before
`Field.fault?` is consulted, and too many of them are refused without a position. -/
def fieldItem (position : Nat) (spelling : Spelling) : Traced Item :=
  if spelling.isReadable then
    match spelling.field.fault? with
    | some fault => .fail (.placed (.invalidField fault spelling.field) position)
    | none => ⟨[.compiled spelling.field (Piece.field spelling).text],
        .ok ⟨position, .field spelling.field⟩⟩
  else .fail (.unplaced (.longQuantity spelling.flags.digits.length))

/-- The item of a piece. A faulty piece has none. -/
def pieceItem (position : Nat) : Piece → Traced Item
  | .run characters => literalItem position characters
  | .field spelling => fieldItem position spelling
  | .dangling => .fail (.placed .danglingEscape position)
  | .cutOff _ => .fail (.placed .missingKind position)
  | .unknown flags letter =>
      .fail (.placed (.unknownKind letter) (position + 1 + flags.text.length))

/-- The items of pieces, the first of which has the given position. -/
def itemsOf (position : Nat) : List Piece → Traced (List Item)
  | [] => pure []
  | .run characters :: .dangling :: _ =>
      .fail (.placed .danglingEscape (position + (Piece.run characters).text.length))
  | piece :: rest => do
      let item ← pieceItem position piece
      let items ← itemsOf (position + piece.text.length) rest
      return item :: items

/-- The items of a text. -/
def readItems (text : List Char) : Traced (List Item) := itemsOf 0 (pieces text)

/-- The text of a value. Each byte of a byte string is the character of that number. -/
def textOf? : Value → Option (List Char)
  | .text content => some content.toList
  | .buffer .bytes data | .buffer .byteArray data =>
      some (data.map fun byte => Char.ofNat byte.toNat)
  | _ => none

/-- Reads a format. -/
def compile (given : Value) : Traced Format :=
  match textOf? given with
  | none => .fail (.unplaced (.formatClass given.valueClass))
  | some text => do
      let items ← readItems text
      return ⟨given, items⟩

/-- The text that describes a format. -/
def describe (format : Format) : String := "<BitFormat(" ++ format.given.quoted ++ ")>"

end Format

end BitRecord
