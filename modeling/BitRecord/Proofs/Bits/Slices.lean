/-
# Slices of byte strings

A slice of a byte string on byte boundaries is the same slice of its bits. This
is what turns a statement about the bits in a place into one about the bytes
that stand there.
-/

import BitRecord.Bits.Lemmas

namespace BitRecord

/-- At most `count` bytes from `offset` on. -/
def Bytes.slice (bytes : Bytes) (offset count : Nat) : Bytes := (bytes.drop offset).take count

/-- A slice inside the first `size` bytes is the same slice of them. -/
theorem Bytes.slice_take {bytes : Bytes} {offset count size : Nat}
    (inside : offset + count ≤ size) :
    slice (bytes.take size) offset count = bytes.slice offset count := by
  rw [slice, slice, List.drop_take, List.take_take,
    Nat.min_eq_left (Nat.le_sub_of_add_le' inside)]

/-- A slice of `count + more` bytes is one of `count` bytes and one of `more` bytes behind it. -/
theorem Bytes.slice_add (bytes : Bytes) (offset count more : Nat) :
    bytes.slice offset (count + more) =
      bytes.slice offset count ++ bytes.slice (offset + count) more := by
  rw [slice, slice, slice, List.take_add, List.drop_drop]

namespace Bits

/-- `ofBytes` turns `drop count` into `drop (8 * count)`. -/
theorem ofBytes_drop (bytes : Bytes) (count : Nat) :
    ofBytes (bytes.drop count) = (ofBytes bytes).drop (8 * count) := by
  induction count generalizing bytes with
  | zero => rfl
  | succ count ih =>
      cases bytes with
      | nil => simp
      | cons byte bytes =>
          have front : (ofNat 8 byte.toNat).length = 8 := length_ofNat 8 byte.toNat
          rw [List.drop_succ_cons, ih, ofBytes_cons, Nat.mul_succ, Nat.add_comm,
            ← List.drop_drop, List.drop_left' front]

/-- `ofBytes` turns `take count` into `take (8 * count)`. -/
theorem ofBytes_take (bytes : Bytes) (count : Nat) :
    ofBytes (bytes.take count) = (ofBytes bytes).take (8 * count) := by
  rcases Nat.le_total count bytes.length with inside | beyond
  · have length : (ofBytes (bytes.take count)).length = 8 * count := by
      rw [length_ofBytes, List.length_take, Nat.min_eq_left inside]
    conv => rhs; rw [← List.take_append_drop count bytes, ofBytes_append]
    rw [List.take_left' length]
  · rw [List.take_of_length_le beyond, List.take_of_length_le]
    rw [length_ofBytes]
    exact Nat.mul_le_mul_left 8 beyond

/-- The bits of a slice are a slice of the bits. -/
theorem ofBytes_slice (bytes : Bytes) (offset count : Nat) :
    ofBytes (bytes.slice offset count) =
      ((ofBytes bytes).drop (8 * offset)).take (8 * count) := by
  rw [Bytes.slice, ofBytes_take, ofBytes_drop]

/-- The bytes of a slice of the bits on byte boundaries are a slice of the bytes. -/
theorem toBytes_slice (bytes : Bytes) (offset count : Nat) :
    toBytes (((ofBytes bytes).drop (8 * offset)).take (8 * count)) = bytes.slice offset count := by
  rw [← ofBytes_slice, toBytes_ofBytes]

end Bits

end BitRecord
