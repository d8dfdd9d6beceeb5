/-
# Integers and bit strings correspond

In a width of at least one bit, every bit string of that length is the form of
exactly one integer below the bound of the width, whatever the order; writing
and reading undo each other. The most significant bit of a big-endian form stands
in front. The little-endian form has the same bytes in the opposite order, and
where there are no two bytes to put into an order, all orders are one.
-/

import BitRecord.Bits.Unsigned
import Mathlib.Data.Set.Function

namespace BitRecord.Bits

/-- The bits of a number, from the one of the highest weight on. -/
theorem ofNat_eq_map_testBit (width value : Nat) :
    ofNat width value =
      (List.range width).map fun index => value.testBit (width - 1 - index) := by
  induction width with
  | zero => rfl
  | succ width ih =>
      have later : ((fun index => value.testBit (width + 1 - 1 - index)) ∘ Nat.succ) =
          fun index => value.testBit (width - 1 - index) := by
        funext index
        have weight : width + 1 - 1 - (index + 1) = width - 1 - index := by omega
        exact congrArg value.testBit weight
      rw [ofNat, ih, List.range_succ_eq_map, List.map_cons, List.map_map, later]
      rfl

/-- `ofUnsigned?` is inverse to `toUnsigned?`. -/
theorem ofUnsigned?_of_toUnsigned? {order : Order} {bits : Bits} {number : Nat}
    (read : bits.toUnsigned? order = some number) :
    number < 2 ^ bits.length ∧ ofUnsigned? order bits.length number = some bits := by
  unfold toUnsigned? at read
  split at read
  · contradiction
  · rename_i full
    obtain rfl := Option.some.inj read
    have small := toNat_lt (bits.arrange order)
    have back := ofNat_toNat (bits.arrange order)
    rw [length_arrange] at small back
    have width_pos : 0 < bits.length := by
      rw [List.length_pos_iff]
      rintro rfl
      exact full rfl
    refine ⟨small, ?_⟩
    rw [ofUnsigned?_natCast order width_pos small, back, arrange_arrange]

/-- `arrange` is the identity where `Order.applies` fails. -/
theorem arrange_of_not_applies {bits : Bits} (bare : ¬ (bits.length % 8 = 0 ∧ bits.length ≠ 8))
    (order : Order) : bits.arrange order = bits := by
  apply if_neg
  rintro ⟨_, applies⟩
  simp only [Order.applies, Bool.and_eq_true, beq_iff_eq, bne_iff_ne] at applies
  exact bare applies

/-- `arrange .little` swaps the bytes where `Order.applies` holds. -/
theorem arrange_little {bits : Bits} (whole : bits.length % 8 = 0) (several : bits.length ≠ 8) :
    bits.arrange .little = (groups (bits.length / 8) bits).reverse.flatten := by
  apply if_pos
  simp [Order.resolve, Order.applies, whole, several]

/-- Every integer below `2 ^ width` has a form in `width` bits, and `toUnsigned?` reads it back. -/
private theorem exists_form {width : Nat} (width_pos : 0 < width) (order : Order) {value : Int}
    (natural : 0 ≤ value) (small : value < 2 ^ width) :
    ∃ bits : Bits, bits.length = width ∧ ofUnsigned? order width value = some bits ∧
      bits.toUnsigned? order = some value.toNat := by
  obtain ⟨number, rfl⟩ := Int.eq_ofNat_of_zero_le natural
  have form := ofUnsigned?_natCast order width_pos (by exact_mod_cast small)
  refine ⟨_, ?_, form, toUnsigned?_of_ofUnsigned? form⟩
  rw [length_arrange, length_ofNat]

/-- Every string of at least one bit writes an integer below two to its length, and is the form of
that integer. -/
private theorem exists_number {width : Nat} (width_pos : 0 < width) (order : Order) {bits : Bits}
    (length : bits.length = width) :
    ∃ number : Nat, number < 2 ^ width ∧ bits.toUnsigned? order = some number ∧
      ofUnsigned? order width number = some bits := by
  subst length
  have full : bits.isEmpty = false :=
    List.isEmpty_eq_false_iff.mpr (List.length_pos_iff.mp width_pos)
  have read : bits.toUnsigned? order = some (bits.arrange order).toNat := by
    rw [toUnsigned?, full]
    rfl
  obtain ⟨small, form⟩ := ofUnsigned?_of_toUnsigned? read
  exact ⟨_, small, read, form⟩

/-- In every width of at least one bit and every order, `ofUnsigned?` is a bijection from the
integers below `2 ^ width` onto the bit strings of that length, and `toUnsigned?` is its inverse. A
big-endian form starts with the bit of the highest weight. In several whole bytes, the native order
is the little-endian one, whose form has the bytes of the big-endian form in the opposite order. In
any other width all orders give the same form. -/
theorem unsigned_bijOn {width : Nat} (width_pos : 0 < width) (order : Order) :
    Set.BijOn (fun value : Int => ofUnsigned? order width value)
        {value | 0 ≤ value ∧ value < 2 ^ width}
        (some '' {bits : Bits | bits.length = width}) ∧
      (∀ value : Int, 0 ≤ value → value < 2 ^ width → ∃ bits : Bits, bits.length = width ∧
        ofUnsigned? order width value = some bits ∧ bits.toUnsigned? order = some value.toNat) ∧
      (∀ bits : Bits, bits.length = width → ∃ number : Nat, number < 2 ^ width ∧
        bits.toUnsigned? order = some number ∧ ofUnsigned? order width number = some bits) ∧
      (∀ value : Nat, value < 2 ^ width → ofUnsigned? .big width value =
        some ((List.range width).map fun index => value.testBit (width - 1 - index))) ∧
      (width % 8 = 0 → width ≠ 8 →
        (∀ value : Int, ofUnsigned? .native width value = ofUnsigned? .little width value) ∧
        (∀ bits : Bits, bits.length = width →
          bits.toUnsigned? .native = bits.toUnsigned? .little) ∧
        ∀ value : Int, 0 ≤ value → value < 2 ^ width → ∃ bytes : List Bits,
          (∀ byte ∈ bytes, byte.length = 8) ∧
          ofUnsigned? .big width value = some bytes.flatten ∧
          ofUnsigned? .little width value = some bytes.reverse.flatten) ∧
      (¬ (width % 8 = 0 ∧ width ≠ 8) → ∀ other : Order,
        (∀ value : Int, ofUnsigned? other width value = ofUnsigned? order width value) ∧
        ∀ bits : Bits, bits.length = width →
          bits.toUnsigned? other = bits.toUnsigned? order) := by
  have forms (value : Int) (natural : 0 ≤ value) (small : value < 2 ^ width) :=
    exists_form width_pos order natural small
  have numbers (bits : Bits) (length : bits.length = width) :=
    exists_number width_pos order length
  refine ⟨⟨?_, ?_, ?_⟩, forms, numbers, ?_, fun whole several => ⟨fun _ => rfl, fun _ _ => rfl, ?_⟩,
    fun bare other => ⟨fun value => ?_, fun bits length => ?_⟩⟩
  · rintro value ⟨natural, small⟩
    obtain ⟨bits, length, form, _⟩ := forms value natural small
    exact ⟨bits, length, form.symm⟩
  · rintro first ⟨first_natural, first_small⟩ second ⟨second_natural, second_small⟩ same
    obtain ⟨bits, _, form, read⟩ := forms first first_natural first_small
    obtain ⟨others, _, other_form, other_read⟩ := forms second second_natural second_small
    obtain rfl := Option.some.inj ((form.symm.trans same).trans other_form)
    have equal := Option.some.inj (read.symm.trans other_read)
    omega
  · rintro _ ⟨bits, length, rfl⟩
    obtain ⟨number, small, _, form⟩ := numbers bits length
    exact ⟨number, ⟨Int.natCast_nonneg number, by exact_mod_cast small⟩, form⟩
  · intro value small
    rw [ofUnsigned?_natCast .big width_pos small, arrange_big, ofNat_eq_map_testBit]
  · intro value natural small
    obtain ⟨number, rfl⟩ := Int.eq_ofNat_of_zero_le natural
    have small : number < 2 ^ width := by exact_mod_cast small
    have length := length_ofNat width number
    refine ⟨groups (width / 8) (ofNat width number), fun byte member => ?_, ?_, ?_⟩
    · exact length_of_mem_groups (by omega) member
    · rw [ofUnsigned?_natCast .big width_pos small, arrange_big, flatten_groups,
        List.take_of_length_le (by omega)]
    · rw [ofUnsigned?_natCast .little width_pos small, arrange_little (by omega) (by omega), length]
  · unfold ofUnsigned?
    have length := length_ofNat width value.toNat
    rw [Int.toNat_natCast, arrange_of_not_applies (by rwa [length]),
      arrange_of_not_applies (by rwa [length])]
  · subst length
    rw [toUnsigned?, toUnsigned?, arrange_of_not_applies bare, arrange_of_not_applies bare]

/-- The little-endian order swaps three bytes, and no order changes twelve bits. -/
theorem unsigned_bijOn_three_bytes :
    0 < 24 ∧ 0 < 12 ∧
      (∃ bits : Bits, bits.length = 24 ∧ ofUnsigned? .little 24 66051 = some bits ∧
        bits.toUnsigned? .little = some 66051) ∧
      (∃ bytes : List Bits, (∀ byte ∈ bytes, byte.length = 8) ∧
        ofUnsigned? .big 24 66051 = some bytes.flatten ∧
        ofUnsigned? .little 24 66051 = some bytes.reverse.flatten) ∧
      ofUnsigned? .big 12 2570 = ofUnsigned? .little 12 2570 := by
  obtain ⟨_, forms, _, _, ordered, _⟩ := @unsigned_bijOn 24 (by decide) .little
  obtain ⟨_, _, _, _, _, bare⟩ := @unsigned_bijOn 12 (by decide) .little
  obtain ⟨_, _, turned⟩ := ordered (by decide) (by decide)
  exact ⟨by decide, by decide, forms 66051 (by decide) (by decide),
    turned 66051 (by decide) (by decide), (bare (by decide) .big).1 2570⟩

end BitRecord.Bits
