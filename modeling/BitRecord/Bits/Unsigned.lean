/-
# Unsigned integers as bits

An integer is written in a chosen number of bits and, when these make two bytes
or more, in a chosen byte order. The order moves whole bytes and never turns the
bits inside one round, so a width that is no whole number of bytes, or is a
single byte, knows no order at all.
-/

import BitRecord.Bits.Lemmas

namespace BitRecord

/-- The order of the bytes of a word, or of the bits of a bit run. -/
inductive Order where
  | native
  | little
  | big
  deriving DecidableEq, Repr, Inhabited

namespace Order

/-- The order that `native` resolves to. -/
def host : Order := .little

/-- The order with `native` resolved to `host`. -/
def resolve : Order → Order
  | native => host
  | order => order

/-- Whether a width has a byte order: it is a whole number of bytes, and not a single one. -/
def applies (width : Nat) : Bool := width % 8 == 0 && width != 8

end Order

namespace Bits

/-- The bits with their bytes in the opposite order when `order` resolves to `little` and `applies`
to their length. -/
def arrange (order : Order) (bits : Bits) : Bits :=
  if order.resolve = .little ∧ Order.applies bits.length = true then bits.swapGroups else bits

/-- An integer in `width` bits. A width below one, a negative integer and one that is too
large for the width have no such form. -/
def ofUnsigned? (order : Order) (width value : Int) : Option Bits :=
  if 0 < width ∧ 0 ≤ value ∧ value < 2 ^ width.toNat then
    some ((ofNat width.toNat value.toNat).arrange order)
  else
    none

/-- The integer that bits write in an order, `none` for the empty string. -/
def toUnsigned? (order : Order) (bits : Bits) : Option Nat :=
  if bits.isEmpty then none else some (bits.arrange order).toNat

@[simp]
theorem length_arrange (order : Order) (bits : Bits) :
    (bits.arrange order).length = bits.length := by
  unfold arrange
  split
  · rename_i applies
    have whole : bits.length % 8 = 0 := by
      have := applies.2
      simp only [Order.applies, Bool.and_eq_true, beq_iff_eq] at this
      exact this.1
    exact length_swapGroups whole
  · rfl

/-- `arrange order` is an involution. -/
@[simp]
theorem arrange_arrange (order : Order) (bits : Bits) :
    (bits.arrange order).arrange order = bits := by
  have length := length_arrange order bits
  by_cases applies : order.resolve = .little ∧ Order.applies bits.length = true
  · have whole : bits.length % 8 = 0 := by
      have := applies.2
      simp only [Order.applies, Bool.and_eq_true, beq_iff_eq] at this
      exact this.1
    have once : bits.arrange order = bits.swapGroups := by rw [arrange, if_pos applies]
    rw [arrange, length, if_pos applies, once, swapGroups_swapGroups whole]
  · have once : bits.arrange order = bits := by rw [arrange, if_neg applies]
    rw [once, once]

/-- `arrange .big` is the identity. -/
@[simp]
theorem arrange_big (bits : Bits) : bits.arrange .big = bits := by
  simp [arrange, Order.resolve]

/-- In a width that is not empty `ofUnsigned?` succeeds exactly below `2 ^ width`. -/
theorem ofUnsigned?_natCast (order : Order) {width value : Nat} (width_pos : 0 < width)
    (value_lt : value < 2 ^ width) :
    ofUnsigned? order width value = some ((ofNat width value).arrange order) := by
  have bound : (value : Int) < 2 ^ width := by exact_mod_cast value_lt
  rw [ofUnsigned?, if_pos ⟨by omega, by omega, by simpa using bound⟩]
  simp

/-- `ofUnsigned?` gives `width` bits. -/
theorem length_of_ofUnsigned? {order : Order} {width value : Int} {bits : Bits}
    (form : ofUnsigned? order width value = some bits) : bits.length = width := by
  unfold ofUnsigned? at form
  split at form
  · simp only [Option.some.injEq] at form
    subst form
    rw [length_arrange, length_ofNat]
    omega
  · contradiction

/-- `toUnsigned?` is inverse to `ofUnsigned?`. -/
theorem toUnsigned?_of_ofUnsigned? {order : Order} {width value : Int} {bits : Bits}
    (form : ofUnsigned? order width value = some bits) :
    bits.toUnsigned? order = some value.toNat := by
  have length := length_of_ofUnsigned? form
  unfold ofUnsigned? at form
  split at form
  · rename_i fits
    have full : bits.isEmpty = false := by
      cases bits with
      | nil => simp at length; omega
      | cons => rfl
    simp only [Option.some.injEq] at form
    have small : value.toNat < 2 ^ width.toNat :=
      (Int.toNat_lt fits.2.1).mpr (by exact_mod_cast fits.2.2)
    subst form
    simp [toUnsigned?, full, toNat_ofNat, Nat.mod_eq_of_lt small]
  · contradiction

end Bits

end BitRecord
