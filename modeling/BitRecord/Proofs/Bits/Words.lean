/-
# Words as bytes

A word of several bytes is written byte by byte, from the least significant byte
or from the most significant one. Here the bytes are the digits of the number in
base 256, and `arrange_ofNat` says that turning the groups of a written number
round gives these digits. A string of words is read back word by word.
-/

import BitRecord.Bits.Unsigned

namespace BitRecord.Bits

/-- The digits of a number in base 256, the least significant in front, eight bits each. -/
def digits (count value : Nat) : List Bits :=
  (List.range count).map fun place => ofNat 8 (value / 256 ^ place)

/-- A number in a whole number of bytes: from the most significant byte if it is big-endian, and
otherwise from the least significant one. Each byte starts with its most significant bit. -/
def ofWord (order : Order) (width value : Nat) : Bits :=
  if order = .big then (digits (width / 8) value).reverse.flatten
  else (digits (width / 8) value).flatten

/-- The numbers that words standing behind each other write. -/
def words (order : Order) (width : Nat) : (count : Nat) → Bits → List Nat
  | 0, _ => []
  | count + 1, bits =>
      toNat (arrange order (bits.take width)) :: words order width count (bits.drop width)

/-- `ofNat (high + low)` is the high digits in front of the low ones. -/
theorem ofNat_add (high low value : Nat) :
    ofNat (high + low) value = ofNat high (value / 2 ^ low) ++ ofNat low value := by
  induction high with
  | zero => simp
  | succ high ih =>
      have digit : (value / 2 ^ low).testBit high = value.testBit (high + low) := by
        rw [Nat.testBit_div_two_pow, Nat.add_comm]
      rw [Nat.succ_add, ofNat, ih, ofNat, digit, List.cons_append]

/-- The bytes of a number, from the last to the first, are its digits in base 256. -/
theorem reverse_groups_ofNat (count value : Nat) :
    (groups count (ofNat (8 * count) value)).reverse = digits count value := by
  induction count with
  | zero => rfl
  | succ count ih =>
      have top : (ofNat 8 (value / 256 ^ count)).length = 8 := length_ofNat 8 _
      have split : ofNat (8 * (count + 1)) value =
          ofNat 8 (value / 256 ^ count) ++ ofNat (8 * count) value := by
        rw [Nat.mul_succ, Nat.add_comm, ofNat_add, Nat.pow_mul]
      rw [groups_succ, split, List.take_left' top, List.drop_left' top, List.reverse_cons, ih,
        digits, digits, List.range_succ, List.map_append]
      rfl

/-- `arrange order` of `ofNat width` is `ofWord order width`. -/
theorem arrange_ofNat (order : Order) {width : Nat} (whole : width % 8 = 0) (value : Nat) :
    (ofNat width value).arrange order = ofWord order width value := by
  obtain ⟨count, rfl⟩ : ∃ count, width = 8 * count := ⟨width / 8, by omega⟩
  have count_eq : 8 * count / 8 = count := by omega
  have forward : (digits count value).reverse.flatten = ofNat (8 * count) value := by
    rw [← reverse_groups_ofNat, List.reverse_reverse, flatten_groups,
      List.take_of_length_le (Nat.le_of_eq (length_ofNat _ _))]
  have backward : (ofNat (8 * count) value).swapGroups = (digits count value).flatten := by
    rw [swapGroups, length_ofNat, count_eq, reverse_groups_ofNat]
  by_cases big : order = .big
  · rw [big, arrange_big, ofWord, if_pos rfl, count_eq, forward]
  · have little : order.resolve = .little := by
      cases order with
      | native | little => rfl
      | big => contradiction
    rw [ofWord, if_neg big, count_eq, arrange, length_ofNat]
    by_cases single : count = 1
    · -- One byte has no order, and its only digit is the byte itself.
      subst single
      rw [if_neg (by simp [Order.applies])]
      simp [digits]
    · rw [if_pos ⟨little, by simp [Order.applies]; omega⟩, backward]

theorem length_ofWord (order : Order) {width : Nat} (whole : width % 8 = 0) (value : Nat) :
    (ofWord order width value).length = width := by
  rw [← arrange_ofNat order whole, length_arrange, length_ofNat]

/-- `toNat` after `arrange order` is inverse to `ofWord order`. -/
theorem toNat_arrange_ofWord (order : Order) {width value : Nat} (whole : width % 8 = 0)
    (small : value < 2 ^ width) : ((ofWord order width value).arrange order).toNat = value := by
  rw [← arrange_ofNat order whole, arrange_arrange, toNat_ofNat, Nat.mod_eq_of_lt small]

/-- `ofWord order` is inverse to `toNat` after `arrange order`. -/
theorem ofWord_toNat_arrange (order : Order) (bits : Bits) (whole : bits.length % 8 = 0) :
    ofWord order bits.length (bits.arrange order).toNat = bits := by
  have back := ofNat_toNat (bits.arrange order)
  rw [length_arrange] at back
  rw [← arrange_ofNat order whole, back, arrange_arrange]

@[simp]
theorem length_words (order : Order) (width count : Nat) (bits : Bits) :
    (words order width count bits).length = count := by
  induction count generalizing bits with
  | zero => rfl
  | succ count ih => rw [words, List.length_cons, ih]

/-- `words` are below `2 ^ width`. -/
theorem lt_of_mem_words {order : Order} {width count number : Nat} {bits : Bits}
    (member : number ∈ words order width count bits) : number < 2 ^ width := by
  induction count generalizing bits with
  | zero => simp [words] at member
  | succ count ih =>
      rw [words, List.mem_cons] at member
      rcases member with rfl | member
      · have bound := toNat_lt (arrange order (bits.take width))
        have narrow : (arrange order (bits.take width)).length ≤ width := by
          rw [length_arrange, List.length_take]
          omega
        exact Nat.lt_of_lt_of_le bound (Nat.pow_le_pow_right (by omega) narrow)
      · exact ih member

theorem length_flatMap_ofWord (order : Order) {width : Nat} (whole : width % 8 = 0)
    (values : List Nat) :
    (values.flatMap (ofWord order width)).length = width * values.length := by
  induction values with
  | nil => rfl
  | cons value values ih =>
      rw [List.flatMap_cons, List.length_append, ih, length_ofWord order whole, List.length_cons,
        Nat.mul_succ, Nat.add_comm]

/-- `words` reads back words written behind each other. -/
theorem words_flatMap_ofWord (order : Order) {width : Nat} (whole : width % 8 = 0)
    {values : List Nat} (small : ∀ value ∈ values, value < 2 ^ width) :
    words order width values.length (values.flatMap (ofWord order width)) = values := by
  induction values with
  | nil => rfl
  | cons value values ih =>
      have length := length_ofWord order whole value
      rw [List.length_cons, words, List.flatMap_cons, List.take_left' length,
        List.drop_left' length, toNat_arrange_ofWord order whole (small value List.mem_cons_self),
        ih fun other member => small other (List.mem_cons_of_mem _ member)]

/-- The `words` of a string are written as the same string. -/
theorem flatMap_ofWord_words (order : Order) {width count : Nat} {bits : Bits}
    (whole : width % 8 = 0) (length : bits.length = width * count) :
    (words order width count bits).flatMap (ofWord order width) = bits := by
  induction count generalizing bits with
  | zero => rw [List.length_eq_zero_iff.mp length]; rfl
  | succ count ih =>
      rw [Nat.mul_succ] at length
      have front : (bits.take width).length = width := by
        rw [List.length_take]
        omega
      have word := ofWord_toNat_arrange order (bits.take width) (by rw [front, whole])
      rw [front] at word
      rw [words, List.flatMap_cons, word, ih (by rw [List.length_drop]; omega),
        List.take_append_drop]

end BitRecord.Bits
