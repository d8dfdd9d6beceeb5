/-
# Writing a directive

What one directive adds to a record. An emission is a record under way: its
writer and the widths requested from the random source. The alignment flag of a
field is left to the walk over the directives (`Record.write`); only a literal
moves to a byte boundary by itself.
-/

import BitRecord.Cursor.Writer
import BitRecord.RandomSource
import BitRecord.Trace

namespace BitRecord

/-- A record under way. -/
structure Emission where
  writer : Writer
  /-- The widths requested from the random source so far. -/
  asked : Array Nat

namespace Emission

/-- A record before its first directive. -/
def empty : Emission := ⟨.empty, #[]⟩

/-- Adds bits. -/
def append (emission : Emission) (bits : Bits) : Emission :=
  { emission with writer := emission.writer.append bits }

/-- Adds zeros up to the next byte boundary. -/
def align (emission : Emission) : Emission :=
  { emission with writer := emission.writer.align }

/-- Adds bytes. -/
def appendBytes (emission : Emission) (bytes : Bytes) : Emission :=
  { emission with writer := emission.writer.appendBytes bytes }

/-- Adds an integer of `width` bits, or fails where `Bits.ofUnsigned?` gives nothing. -/
def appendUnsigned (emission : Emission) (order : Order) (width value : Nat) : Traced Emission :=
  match emission.writer.appendUnsigned? order width value with
  | some writer => .pure { emission with writer }
  | none => .fail (.unplaced .unrepresentable)

/-- Requests a number of `width` bits from the random source and adds it, the most significant bit
in front. A request that is refused draws nothing. -/
def appendRandom (source : RandomSource) (emission : Emission) (width : Nat) : Traced Emission := do
  let number ← .ofResult (source.answer emission.asked width)
  Traced.note (.drew width)
  let asked := emission.asked.push width
  Emission.appendUnsigned { emission with asked } .big width number

end Emission

namespace Codec

/-- Adds `width` bits of a fill. -/
def fill (source : RandomSource) (fill : Fill) (width : Nat) (emission : Emission) :
    Traced Emission :=
  match fill with
  | .zeros => .pure (emission.append (List.replicate width false))
  | .ones => .pure (emission.append (List.replicate width true))
  | .random => emission.appendRandom source width

/-- Adds `width` bits of a fill, a number of times. -/
def fillRepeatedly (source : RandomSource) (mode : Fill) (width : Nat) :
    (count : Nat) → Emission → Traced Emission
  | 0, emission => .pure emission
  | count + 1, emission => do
      let emission ← fill source mode width emission
      fillRepeatedly source mode width count emission

/-- Adds integers of `width` bits each, in order. -/
def appendAll (order : Order) (width : Nat) : List Nat → Emission → Traced Emission
  | [], emission => .pure emission
  | value :: values, emission => do
      let emission ← emission.appendUnsigned order width value
      appendAll order width values emission

/-- Adds a bit run. An array gives one bit an element. Of a little-endian value the top bits are
taken, of any other the low ones, and a big-endian one is turned round. -/
def encodeBits (field : Field) (payload : Payload) (emission : Emission) : Traced Emission :=
  match payload with
  | .integers values => .pure (emission.append (values.map (· != 0)))
  | .integer value =>
      match field.order with
      | .little =>
          emission.appendUnsigned .big field.count (value / 2 ^ field.justification)
      | .native => emission.appendUnsigned .big field.count value
      | .big =>
          match Bits.ofUnsigned? .big field.count value with
          | some bits => .pure (emission.append bits.reverse)
          | none => .fail (.unplaced .unrepresentable)
  | .bytes _ => .fail (.unplaced .missingArgument)

/-- Adds bytes or words. -/
def encodeIntegers (field : Field) (payload : Payload) (emission : Emission) : Traced Emission :=
  match payload with
  | .integers values => appendAll field.order field.width values emission
  | .integer value => emission.appendUnsigned field.order field.width value
  | .bytes _ => .fail (.unplaced .missingArgument)

/-- Adds a string: cut to the length of the field, or completed with zero bytes. -/
def encodeString (field : Field) (payload : Payload) (emission : Emission) : Traced Emission :=
  match payload with
  | .bytes data => do
      if data.length < field.count then
        Traced.note (.padding data.length field.count)
      let kept := data.take field.count
      return emission.appendBytes (kept ++ List.replicate (field.count - kept.length) 0)
  | _ => .fail (.unplaced .missingArgument)

/-- Adds a filled field: a bit run in one go, bytes and words one by one. -/
def encodeFill (source : RandomSource) (field : Field) (mode : Fill) (emission : Emission) :
    Traced Emission :=
  match ofKind field.kind with
  | .bitRun => fill source mode field.count emission
  | _ => fillRepeatedly source mode field.width field.count emission

/-- Adds the payload of a field with the codec of its kind. -/
def encodePayload (field : Field) (payload : Payload) (emission : Emission) : Traced Emission :=
  match ofKind field.kind with
  | .bitRun => encodeBits field payload emission
  | .string => encodeString field payload emission
  | _ => encodeIntegers field payload emission

end Codec

/-- Adds a directive. A field that takes a value finds it at the front of the arguments. -/
def Directive.encode (source : RandomSource) (directive : Directive)
    (arguments : List Argument) (emission : Emission) : Traced (Emission × List Argument) :=
  match directive with
  | .literal data => .pure (emission.align.appendBytes data, arguments)
  | .field f =>
      match f.fill with
      | some mode => do
          let emission ← Codec.encodeFill source f mode emission
          return (emission, arguments)
      | none =>
          match arguments with
          | [] => .fail (.unplaced .missingArgument)
          | argument :: arguments => do
              let emission ← Codec.encodePayload f argument.payload emission
              return (emission, arguments)

end BitRecord
