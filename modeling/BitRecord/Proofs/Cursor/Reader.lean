/-
# What a reader takes

`Reader.take` gives the front of the rest when enough bits remain and refuses
otherwise, and so do the steps that are made of it. The reader stands on any bit,
so nothing here depends on byte boundaries but the alignment itself.
-/

import BitRecord.Cursor.Reader

namespace BitRecord

namespace Reader

variable {reader : Reader}

/-- The reader with its position moved by `amount` bits. -/
def move (reader : Reader) (amount : Nat) : Reader := ⟨reader.bits, reader.position + amount⟩

@[simp]
theorem move_zero (reader : Reader) : reader.move 0 = reader := rfl

@[simp]
theorem move_move (reader : Reader) (first second : Nat) :
    (reader.move first).move second = reader.move (first + second) := by
  simp [move, Nat.add_assoc]

@[simp]
theorem rest_moved (reader : Reader) (amount : Nat) :
    (reader.move amount).rest = reader.rest.drop amount :=
  reader.rest_move amount

@[simp]
theorem remaining_moved (reader : Reader) (amount : Nat) :
    (reader.move amount).remaining = reader.remaining - amount := by
  simp only [move, remaining]
  omega

theorem takeUnsigned_of_le (order : Order) {width : Nat} (width_pos : 0 < width)
    (enough : width ≤ reader.remaining) :
    reader.takeUnsigned order width =
      .ok ((Bits.arrange order (reader.rest.take width)).toNat, reader.move width) := by
  have full : (reader.rest.take width).isEmpty = false := by
    rw [List.isEmpty_eq_false_iff_exists_mem]
    refine List.exists_mem_of_length_pos ?_
    rw [List.length_take, length_rest]
    omega
  rw [takeUnsigned, take_of_le enough]
  simp only [bind, Except.bind, Bits.toUnsigned?, full]
  rfl

theorem takeUnsigned_of_lt (order : Order) {width : Nat} (missing : reader.remaining < width) :
    reader.takeUnsigned order width =
      .error (reader.truncation width) := by
  rw [takeUnsigned, take_of_lt missing]
  rfl

theorem takeBytes_of_le {count : Nat} (enough : 8 * count ≤ reader.remaining) :
    reader.takeBytes count =
      .ok (Bits.toBytes (reader.rest.take (8 * count)), reader.move (8 * count)) := by
  have amount : (count : Int) * 8 = (8 * count : Nat) := by omega
  rw [takeBytes, amount, take_of_le enough]
  rfl

theorem takeBytes_of_lt {count : Nat} (missing : reader.remaining < 8 * count) :
    reader.takeBytes count =
      .error (reader.truncation (8 * count)) := by
  have amount : (count : Int) * 8 = (8 * count : Nat) := by omega
  rw [takeBytes, amount, take_of_lt missing]
  rfl

theorem align_of_le (enough : toBoundary reader.position ≤ reader.remaining) :
    reader.align = .ok (reader.move (toBoundary reader.position)) := by
  rw [align, padding]
  split
  · rename_i aligned
    rw [aligned, move_zero]
  · rw [take_of_le enough]
    rfl

/-- `ofValue` gives a reader at the start of the first bytes of a value. -/
theorem ofValue_eq_ok {buffer length : Value} {reader : Reader}
    (readable : ofValue buffer length = .ok reader) :
    ∃ bytes size, buffer.asBytes? = some bytes ∧
      readableSize bytes.length length = .ok size ∧
      reader = ofBytes (bytes.take size) := by
  rw [ofValue] at readable
  cases held : buffer.asBytes? with
  | none =>
      rw [held] at readable
      contradiction
  | some bytes =>
      rw [held] at readable
      dsimp only at readable
      cases known : readableSize bytes.length length with
      | error cause =>
          rw [known] at readable
          contradiction
      | ok size =>
          rw [known] at readable
          exact ⟨bytes, size, rfl, known, (Except.ok.inj readable).symm⟩

/-- `ofValue` without a length reads all bytes. -/
theorem ofValue_null (bytes : Bytes) :
    ofValue (.buffer .bytes bytes) .null = .ok (ofBytes bytes) := by
  rw [ofValue, Value.asBytes?, if_pos (by rfl)]
  simp [Except.map]

/-- `ofValue` with a length reads that many bytes. -/
theorem ofValue_length (front back : Bytes) :
    ofValue (.buffer .bytes (front ++ back)) (.integer front.length) =
      .ok (ofBytes front) := by
  have inside : ¬ ((front.length : Int) < 0 ∨ ((front ++ back).length : Int) < front.length) := by
    rw [List.length_append]
    omega
  rw [ofValue, Value.asBytes?, if_pos (by rfl)]
  simp only [readableSize_integer, if_neg inside, Except.map, Int.toNat_natCast,
    List.take_left']

end Reader

end BitRecord
