/-
# Records

Packing walks over the directives of a format and writes each one behind the
other; unpacking walks over the same directives and takes each one off a buffer.
Both put a flagged field on a byte boundary first and then say where they stand.
A failure on the way belongs to the directive in progress.
-/

import BitRecord.Argument.Bind
import BitRecord.Codec.Encode
import BitRecord.Codec.Decode

namespace BitRecord

namespace Record

/-- Writes items behind each other, the arguments going to the fields that take one. -/
def write (source : RandomSource) : List Item → List Argument → Emission → Traced Emission
  | [], _, emission => .pure emission
  | item :: items, arguments, emission => do
      let emission := if item.directive.isFlagged then emission.align else emission
      Traced.note (.packing item.directive emission.writer.position)
      let (emission, arguments) ←
        (item.directive.encode source arguments emission).orPlacedAt item.position
      write source items arguments emission

/-- Moves to a byte boundary in front of a field with the alignment flag. -/
def approach (item : Item) (reader : Reader) : Except Cause Reader :=
  if item.directive.isFlagged then reader.align else .ok reader

/-- The `failedUnpacking` event of an item, left for failures of a located family only. -/
def reportFailure (item : Item) (failure : Failure) : List Event :=
  if failure.cause.family.isLocated then [.failedUnpacking item.directive failure] else []

/-- Reads an item: an `unpacking` event in front, and `reportFailure` behind it when it fails. -/
def readItem (item : Item) (reader : Reader) : Traced (Option Payload × Reader) :=
  match approach item reader with
  | .error cause =>
      let failure := Failure.unplaced cause
      ⟨reportFailure item failure, .error (failure.orPlacedAt item.position)⟩
  | .ok reader =>
      let started := Event.unpacking item.directive reader.position
      match item.decode reader with
      | .error failure =>
          ⟨started :: reportFailure item failure, .error (failure.orPlacedAt item.position)⟩
      | .ok result => ⟨[started], .ok result⟩

/-- Takes items behind each other and gives the payloads of the fields that have one. -/
def read : List Item → Reader → Traced (List Payload)
  | [], _ => .pure []
  | item :: items, reader => do
      let (payload, reader) ← readItem item reader
      let payloads ← read items reader
      return payload.toList ++ payloads

end Record

namespace Format

/-- The record of a format for some values. -/
def pack (format : Format) (values : Value) (source : RandomSource) : Traced Bytes := do
  let arguments ← format.bind values
  let emission ← Record.write source format.items arguments .empty
  let bytes := emission.writer.bytes
  Traced.note (.packed emission.writer.position bytes.length)
  return bytes

/-- The payloads of the record at the start of a buffer, one for each field that takes a value. A
length other than null cuts the buffer. -/
def unpack (format : Format) (buffer length : Value) : Traced (List Payload) := do
  let reader ← .ofResult (Reader.ofValue buffer length)
  Record.read format.items reader

end Format

/-- Reads a format and packs values. -/
def pack (given values : Value) (source : RandomSource) : Traced Bytes := do
  let format ← Format.compile given
  format.pack values source

/-- Reads a format and unpacks a buffer. -/
def unpack (given buffer length : Value) : Traced (List Payload) := do
  let format ← Format.compile given
  format.unpack buffer length

end BitRecord
