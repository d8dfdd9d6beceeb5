/-
# Reading bits

A reader holds all bits of a buffer and a position in them. It takes bits off
the rest of the buffer or refuses, and after a refusal it stands where it stood.
-/

import BitRecord.Bits.Unsigned
import BitRecord.Fault

namespace BitRecord

/-- The bits of a buffer and how many of them have been read. -/
structure Reader where
  bits : Array Bool
  position : Nat

namespace Reader

/-- A reader at the start of a byte string. -/
def ofBytes (bytes : Bytes) : Reader := ⟨(Bits.ofBytes bytes).toArray, 0⟩

/-- The number of bytes to read of the `size` bytes of a buffer, all of them for null. The
comparisons with zero and `size` come before `Number.count?`. -/
def readableSize (size : Nat) : Value → Except Cause Nat
  | .null => .ok size
  | length =>
      match length.number? with
      | none => .error (.notNumber length.valueClass)
      | some number =>
          if number.isLess 0 ∨ number.isGreater size then
            .error ((Cause.lengthOutside number size).ifWritten number.canWrite)
          else
            match number.count? with
            | none => .error .notCount
            | some count => .ok count.toNat

/-- A reader of the first `readableSize` bytes of a value. -/
def ofValue (buffer length : Value) : Except Cause Reader :=
  match buffer.asBytes? with
  | none => .error (.unreadableBuffer buffer.valueClass)
  | some bytes => (readableSize bytes.length length).map fun size => ofBytes (bytes.take size)

/-- The number of bytes that can be read in all. -/
def length (reader : Reader) : Nat := reader.bits.size / 8

/-- The number of bits not read yet. -/
def remaining (reader : Reader) : Nat := reader.bits.size - reader.position

/-- The bits not read yet. -/
def rest (reader : Reader) : Bits := reader.bits.toList.drop reader.position

/-- The cause for which `take` refuses more bits than remain. Its message quotes their number. -/
def truncation (reader : Reader) (amount : Nat) : Cause :=
  (Cause.truncated amount reader.position reader.remaining).ifWritten (DigitLimit.canWrite amount)

/-- Takes a number of bits. -/
def take (reader : Reader) (amount : Int) : Except Cause (Bits × Reader) :=
  if reader.remaining < amount then .error (reader.truncation amount.toNat)
  else if amount < 0 then .error .unrepresentable
  else
    let stop := reader.position + amount.toNat
    .ok ((reader.bits.extract reader.position stop).toList, ⟨reader.bits, stop⟩)

/-- The number of bits up to the next byte boundary. -/
def padding (reader : Reader) : Nat := toBoundary reader.position

/-- Takes the bits up to the next byte boundary. -/
def align (reader : Reader) : Except Cause Reader :=
  if reader.padding = 0 then .ok reader
  else (reader.take reader.padding).map (·.2)

/-- Takes an integer of a number of bits. -/
def takeUnsigned (reader : Reader) (order : Order) (width : Int) : Except Cause (Nat × Reader) := do
  let (bits, following) ← reader.take width
  match bits.toUnsigned? order with
  | none => .error .unrepresentable
  | some value => .ok (value, following)

/-- Takes a number of bytes. -/
def takeBytes (reader : Reader) (amount : Int) : Except Cause (Bytes × Reader) :=
  (reader.take (amount * 8)).map fun (bits, following) => (bits.toBytes, following)

/-- A step of a reader. -/
inductive Step where
  | align
  | bits (amount : Int)
  | unsigned (order : Order) (width : Int)
  | bytes (amount : Int)

/-- The result of a step. -/
inductive Taken where
  | padding (amount : Nat)
  | bits (bits : Bits)
  | unsigned (value : Nat)
  | bytes (bytes : Bytes)

/-- Makes a step. -/
def perform (reader : Reader) : Step → Except Cause (Taken × Reader)
  | .align => reader.align.map fun following => (.padding reader.padding, following)
  | .bits amount => (reader.take amount).map fun (bits, following) => (.bits bits, following)
  | .unsigned order width =>
      (reader.takeUnsigned order width).map fun (value, following) => (.unsigned value, following)
  | .bytes amount =>
      (reader.takeBytes amount).map fun (bytes, following) => (.bytes bytes, following)

/-- The reader after a step, unchanged when the step is refused. -/
def after (reader : Reader) (step : Step) : Reader :=
  match reader.perform step with
  | .ok (_, following) => following
  | .error _ => reader

@[simp]
theorem readableSize_null (size : Nat) : readableSize size .null = .ok size := rfl

/-- `readableSize` accepts an integer exactly when it is from zero up to `size`. -/
theorem readableSize_integer (size : Nat) (length : Int) :
    readableSize size (.integer length) =
      if length < 0 ∨ size < length then
        .error ((Cause.lengthOutside (.integer length) size).ifWritten
          (DigitLimit.canWrite length))
      else .ok length.toNat := by
  simp [readableSize, Value.number?, Number.count?, Number.canWrite]

@[simp]
theorem length_rest (reader : Reader) : reader.rest.length = reader.remaining := by
  simp [rest, remaining]

@[simp]
theorem rest_ofBytes (bytes : Bytes) : (ofBytes bytes).rest = Bits.ofBytes bytes := rfl

/-- `take` gives the front of the rest when enough bits remain. -/
theorem take_of_le {reader : Reader} {amount : Nat} (enough : amount ≤ reader.remaining) :
    reader.take amount =
      .ok (reader.rest.take amount, ⟨reader.bits, reader.position + amount⟩) := by
  have no_truncation : ¬ (reader.remaining : Int) < amount := by omega
  rw [take, if_neg no_truncation, if_neg (by omega)]
  simp [rest, Array.toList_extract, List.extract_eq_take_drop]

/-- `take` refuses more bits than remain. -/
theorem take_of_lt {reader : Reader} {amount : Nat} (missing : reader.remaining < amount) :
    reader.take amount = .error (reader.truncation amount) := by
  rw [take, if_pos (by omega)]
  rfl

/-- A reader moved by `amount` has that many bits less in its rest. -/
theorem rest_move (reader : Reader) (amount : Nat) :
    (⟨reader.bits, reader.position + amount⟩ : Reader).rest = reader.rest.drop amount := by
  simp [rest, List.drop_drop]

end Reader

end BitRecord
