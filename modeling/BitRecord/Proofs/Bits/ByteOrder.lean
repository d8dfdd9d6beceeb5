/-
# The number that ordered bytes write

Whole bytes are the digits of a number in base 256, and the order says on which
side the least significant digit stands: `toNat_arrange` equates this reading
with `Bits.toNat` after `Bits.arrange`. A single byte is the same digit in every
order, and bits that make no whole bytes have no order.
-/

import Mathlib.Data.Nat.Digits.Defs
import BitRecord.Bits.Unsigned

namespace BitRecord.Bits

/-- The number that bits write in an order. Whole bytes are digits in base 256, the least
significant in front unless the order is big-endian. -/
def valueIn (order : Order) (bits : Bits) : Nat :=
  if order ≠ .big ∧ bits.length % 8 = 0 then Nat.ofDigits 256 (bits.toBytes.map UInt8.toNat)
  else bits.toNat

/-- Groups of eight bits in the opposite order write the number with these groups as digits in base
256. -/
theorem toNat_flatten_reverse {list : List Bits} (full : ∀ group ∈ list, group.length = 8) :
    toNat list.reverse.flatten = Nat.ofDigits 256 (list.map toNat) := by
  induction list with
  | nil => rfl
  | cons group list ih =>
      obtain ⟨length, others⟩ := List.forall_mem_cons.mp full
      rw [List.reverse_cons, List.flatten_append, List.flatten_singleton, toNat_append, length,
        ih others, List.map_cons, Nat.ofDigits_cons, Nat.add_comm, Nat.mul_comm]
      rfl

/-- The bytes of a string are the numbers that its groups write. -/
theorem map_toNat_toBytes {bits : Bits} (whole : bits.length % 8 = 0) :
    bits.toBytes.map UInt8.toNat = (groups (bits.length / 8) bits).map toNat := by
  have count : (bits.length + 7) / 8 = bits.length / 8 := by omega
  rw [toBytes, completed_of_whole whole, count, List.map_map]
  apply List.map_congr_left
  intro group member
  have small := toNat_lt group
  rw [length_of_mem_groups (by omega) member] at small
  exact (UInt8.toNat_ofNat').trans (Nat.mod_eq_of_lt small)

/-- `swapGroups` of whole bytes writes the number with these bytes as digits in base 256. -/
theorem toNat_swapGroups {bits : Bits} (whole : bits.length % 8 = 0) :
    bits.swapGroups.toNat = Nat.ofDigits 256 (bits.toBytes.map UInt8.toNat) := by
  rw [swapGroups, toNat_flatten_reverse fun _ => length_of_mem_groups (by omega),
    map_toNat_toBytes whole]

/-- A single byte is the same in either order. -/
theorem swapGroups_of_length_eq {bits : Bits} (single : bits.length = 8) :
    bits.swapGroups = bits := by
  have one : bits.take 8 = bits := List.take_of_length_le (Nat.le_of_eq single)
  simp [swapGroups, single, groups, one]

/-- `toNat` after `arrange order` is `valueIn order`. -/
theorem toNat_arrange (order : Order) (bits : Bits) :
    (bits.arrange order).toNat = bits.valueIn order := by
  by_cases swapped : order ≠ .big ∧ bits.length % 8 = 0
  · obtain ⟨order_ne, whole⟩ := swapped
    have little : order.resolve = .little := by
      cases order with
      | native | little => rfl
      | big => contradiction
    have turned : bits.arrange order = bits.swapGroups := by
      by_cases single : bits.length = 8
      · rw [arrange, if_neg (by simp [Order.applies, single]), swapGroups_of_length_eq single]
      · rw [arrange, if_pos ⟨little, by simp [Order.applies, whole, single]⟩]
    rw [turned, valueIn, if_pos ⟨order_ne, whole⟩, toNat_swapGroups whole]
  · have kept : bits.arrange order = bits := by
      rw [arrange, if_neg]
      rintro ⟨little, applies⟩
      refine swapped ⟨?_, ?_⟩
      · rintro rfl
        contradiction
      · simp only [Order.applies, Bool.and_eq_true, beq_iff_eq] at applies
        exact applies.1
    rw [kept, valueIn, if_neg swapped]

/-- `toUnsigned?` of a string that is not empty is its value in the order. -/
theorem toUnsigned?_of_ne_nil (order : Order) {bits : Bits} (full : bits ≠ []) :
    bits.toUnsigned? order = some (bits.valueIn order) := by
  have some_bits : bits.isEmpty = false := List.isEmpty_eq_false_iff.mpr full
  simp [toUnsigned?, some_bits, toNat_arrange]

/-- `valueIn` is inverse to `ofUnsigned?`. -/
theorem valueIn_of_ofUnsigned? {order : Order} {width value : Int} {bits : Bits}
    (form : ofUnsigned? order width value = some bits) : bits.valueIn order = value.toNat := by
  have written := toUnsigned?_of_ofUnsigned? form
  rw [toUnsigned?] at written
  split at written
  · contradiction
  · rw [← toNat_arrange]
    exact Option.some.inj written

example : valueIn .little (ofBytes [0x34, 0x12]) = 0x1234 := by decide

end BitRecord.Bits
