/-
# Records in place

A record can be written into a buffer that is there already. Its place is
checked before anything else about it, and the buffer changes only when the
whole record is ready, so a failure leaves every byte as it was.
-/

import BitRecord.Record

namespace BitRecord

namespace Bytes

/-- The bytes with others in place of those from `offset` on. -/
def splice (base : Bytes) (offset : Nat) (patch : Bytes) : Bytes :=
  base.take offset ++ patch ++ base.drop (offset + patch.length)

/-- The bytes from `start` on. A negative start is counted from the end, and what lies outside of
the bytes stands for the nearer end. -/
def suffixFrom (base : Bytes) (start : Int) : Bytes :=
  base.drop (if start < 0 then base.length - start.natAbs else start.toNat)

/-- A patch that fits leaves the length as it was. -/
theorem length_splice {base patch : Bytes} {offset : Nat}
    (fits : offset + patch.length ≤ base.length) :
    (splice base offset patch).length = base.length := by
  simp [splice]
  omega

end Bytes

/-- A buffer that can change, seen as bytes. -/
def Value.asWritable : Value → Except Cause (Holder × Bytes)
  | .buffer holder data =>
      if holder.isWritable then .ok (holder, data)
      else .error (.readOnlyBuffer (.buffer holder))
  | value => .error (.notBuffer value.valueClass)

/-- The number that an offset is, when `size` bytes behind it fit into `capacity` bytes. -/
def Value.asOffset (offset : Value) (size capacity : Nat) : Except Cause Number :=
  match offset.number? with
  | none => .error (.notNumber offset.valueClass)
  | some number =>
      if number.isLess 0 ∨ (number.addInt size).isGreater capacity then
        .error ((Cause.noRoom size capacity number).ifWritten
          (DigitLimit.canWrite size && number.canWrite))
      else .ok number

namespace Format

/-- The buffer with the record that holds the values written from `offset` on, and the number of
bytes written. A buffer whose bytes do not lie next to each other is refused at the end, and so is
an offset where the record fits but that counts no bytes. -/
def packInto (format : Format) (buffer values offset : Value) (source : RandomSource) :
    Traced (Value × Nat) := do
  let (holder, data) ← .ofResult buffer.asWritable
  let place ← .ofResult (offset.asOffset format.size data.length)
  let record ← format.pack values source
  if !holder.isContiguous then .fail (.unplaced .gappedBuffer)
  else
    match place.count? with
    | none => .fail (.unplaced .notCount)
    | some start =>
        return (.buffer holder (Bytes.splice data start.toNat record), record.length)

end Format

/-- Reads a format and packs values into a buffer. -/
def packInto (given buffer values offset : Value) (source : RandomSource) :
    Traced (Value × Nat) := do
  let format ← Format.compile given
  format.packInto buffer values offset source

/-- The buffer as an operation leaves it: changed by a success, as it was after a failure. -/
def bufferAfter (buffer : Value) (written : Traced (Value × Nat)) : Value :=
  match written.outcome with
  | .ok (changed, _) => changed
  | .error _ => buffer

/-- One use of a buffer that several records share. -/
inductive Access where
  /-- Writes a record from an offset on. -/
  | write (given values offset : Value) (source : RandomSource)
  /-- Reads a record from an offset on, which is counted from the end when it is negative. -/
  | read (given : Value) (start : Int) (length : Value)

/-- What a use of a buffer gives. -/
inductive Access.Answer where
  | written (size : Traced Nat)
  | payloads (payloads : Traced (List Payload))

/-- The bytes that a value holds, none when it holds no bytes. -/
def Value.heldBytes : Value → Bytes
  | .buffer _ data => data
  | _ => []

/-- The answer to a use of a buffer, and the buffer after it. -/
def Access.perform (buffer : Value) : Access → Access.Answer × Value
  | .write given values offset source =>
      let written := packInto given buffer values offset source
      (.written (Prod.snd <$> written), bufferAfter buffer written)
  | .read given start length =>
      let read := Value.buffer .bytes (Bytes.suffixFrom buffer.heldBytes start)
      (.payloads (unpack given read length), buffer)

/-- Uses a buffer several times and gives each answer with the buffer after it. -/
def Access.run (buffer : Value) : List Access → List (Access.Answer × Value)
  | [] => []
  | access :: accesses =>
      let answered := access.perform buffer
      answered :: Access.run answered.2 accesses

end BitRecord
