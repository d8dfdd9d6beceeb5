/-
# Writing bits

A writer holds the bits written so far. It only ever appends, so its position is
the number of bits it holds, and its bytes are these bits with zeros up to a
whole byte.
-/

import BitRecord.Bits.Unsigned

namespace BitRecord

/-- The bits written so far. -/
structure Writer where
  content : Array Bool

namespace Writer

/-- A writer that has written nothing. -/
def empty : Writer := ⟨#[]⟩

/-- The bits written so far, the first in front. -/
def bits (writer : Writer) : Bits := writer.content.toList

/-- The number of bits written so far. -/
def position (writer : Writer) : Nat := writer.content.size

/-- The bytes written so far, the last one completed with zeros. -/
def bytes (writer : Writer) : Bytes := writer.bits.toBytes

/-- Writes bits. -/
def append (writer : Writer) (bits : Bits) : Writer := ⟨writer.content ++ bits⟩

/-- The number of zeros that lead to the next byte boundary. -/
def padding (writer : Writer) : Nat := toBoundary writer.position

/-- Writes zeros up to the next byte boundary. -/
def align (writer : Writer) : Writer := writer.append (List.replicate writer.padding false)

/-- Writes bytes. -/
def appendBytes (writer : Writer) (bytes : Bytes) : Writer := writer.append (Bits.ofBytes bytes)

/-- Writes an integer with `Bits.ofUnsigned?`. -/
def appendUnsigned? (writer : Writer) (order : Order) (width value : Int) : Option Writer :=
  (Bits.ofUnsigned? order width value).map writer.append

/-- A step of a writer. -/
inductive Step where
  | align
  | bits (bits : Bits)
  | unsigned (order : Order) (width value : Int)
  | bytes (bytes : Bytes)

/-- Makes a step, unless `Bits.ofUnsigned?` gives nothing for its integer. -/
def perform? (writer : Writer) : Step → Option Writer
  | .align => some writer.align
  | .bits bits => some (writer.append bits)
  | .unsigned order width value => writer.appendUnsigned? order width value
  | .bytes bytes => some (writer.appendBytes bytes)

/-- The writer after a step, unchanged when the step is refused. -/
def after (writer : Writer) (step : Step) : Writer := (writer.perform? step).getD writer

@[simp]
theorem bits_empty : empty.bits = [] := rfl

@[simp]
theorem bits_append (writer : Writer) (bits : Bits) :
    (writer.append bits).bits = writer.bits ++ bits := by
  simp [append, Writer.bits]

@[simp]
theorem length_bits (writer : Writer) : writer.bits.length = writer.position := by
  simp [bits, position]

@[simp]
theorem position_append (writer : Writer) (bits : Bits) :
    (writer.append bits).position = writer.position + bits.length := by
  rw [← length_bits, bits_append, List.length_append, length_bits]

/-- After alignment the position is a whole number of bytes. -/
theorem position_align_mod (writer : Writer) : writer.align.position % 8 = 0 := by
  simp [align, padding, add_toBoundary_mod]

end Writer

end BitRecord
