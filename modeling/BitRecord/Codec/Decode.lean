/-
# Reading a directive

What one directive takes out of a record. Filled fields and literals take bits
and give nothing; a literal must find its bytes. Bit runs and strings are taken
in one go, bytes and words one by one, so a record that is too short is refused
at the first element that is missing.
-/

import BitRecord.Cursor.Reader

namespace BitRecord

namespace Codec

/-- Takes a number of integers of `width` bits each, in order. -/
def takeAll (order : Order) (width : Nat) :
    (count : Nat) → Reader → Except Cause (List Nat × Reader)
  | 0, reader => .ok ([], reader)
  | count + 1, reader => do
      let (value, reader) ← reader.takeUnsigned order width
      let (values, reader) ← takeAll order width count reader
      return (value :: values, reader)

/-- The payload of a bit run, inverse to `encodeBits`. -/
def decodeBits (field : Field) (bits : Bits) : Except Cause Payload :=
  match field.shape with
  | .array => .ok (.integers (bits.map Bool.toNat))
  | .scalar =>
      let oriented : Bits := if field.order = .big then bits.reverse else bits
      match oriented.toUnsigned? .big with
      | none => .error .unrepresentable
      | some value =>
          .ok (.integer (if field.order = .little then value * 2 ^ field.justification else value))

/-- The payload of bytes or words. -/
def decodeIntegers (field : Field) (values : List Nat) : Except Cause Payload :=
  match field.shape, values with
  | .array, values => .ok (.integers values)
  | .scalar, value :: _ => .ok (.integer value)
  | .scalar, [] => .error .unrepresentable

/-- Takes a field, with its payload unless it is filled. -/
def decodeField (field : Field) (reader : Reader) : Except Cause (Option Payload × Reader) :=
  match ofKind field.kind with
  | .bitRun => do
      let (bits, reader) ← reader.take field.count
      if field.takesValue then
        return (some (← decodeBits field bits), reader)
      return (none, reader)
  | .string => do
      let (bytes, reader) ← reader.takeBytes field.count
      return (some (.bytes bytes), reader)
  | _ => do
      let (values, reader) ← takeAll field.order field.width field.count reader
      if field.takesValue then
        return (some (← decodeIntegers field values), reader)
      return (none, reader)

end Codec

/-- Takes a directive, with the payload that it gives, if any. -/
def Item.decode (item : Item) (reader : Reader) : Except Failure (Option Payload × Reader) :=
  match item.directive with
  | .field field => (Codec.decodeField field reader).mapError .unplaced
  | .literal data => do
      let reader ← reader.align.mapError .unplaced
      let (found, following) ← (reader.takeBytes data.length).mapError .unplaced
      if found = data then
        return (none, following)
      .error (.placed (.literalMismatch data found (reader.position / 8)) item.position)

end BitRecord
