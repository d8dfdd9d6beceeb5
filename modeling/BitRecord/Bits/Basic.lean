/-
# Bit strings

A bit string is a list of bits whose first bit stands in front. Numbers are
written with the most significant bit in front, and bytes are groups of eight
such bits. The conversions here are exact inverses of each other on strings of
the right length; only `toBytes` adds anything, namely the zero bits that
complete the last byte.
-/

namespace BitRecord

/-- A power with a natural exponent elaborates through the `NatPow` instance of the core library,
also where `Monoid.Pow` is known. -/
scoped instance (priority := 2000) naturalPow {α : Type} [NatPow α] : Pow α Nat := instPowNat

/-- A string of bytes. -/
abbrev Bytes := List UInt8

/-- A string of bits, the first bit in front. -/
abbrev Bits := List Bool

/-- How many bits lie between a bit position and the next byte boundary. -/
def toBoundary (position : Nat) : Nat := (8 - position % 8) % 8

/-- A position plus its `toBoundary` is a multiple of eight. -/
theorem add_toBoundary_mod (position : Nat) : (position + toBoundary position) % 8 = 0 := by
  unfold toBoundary
  omega

theorem toBoundary_lt (position : Nat) : toBoundary position < 8 := by
  unfold toBoundary
  omega

/-- `toBoundary` is zero exactly at the multiples of eight. -/
theorem toBoundary_eq_zero_iff {position : Nat} : toBoundary position = 0 ↔ position % 8 = 0 := by
  unfold toBoundary
  omega

namespace Bits

/-- The lowest `width` binary digits of a number, the most significant in front. -/
def ofNat : (width value : Nat) → Bits
  | 0, _ => []
  | width + 1, value => value.testBit width :: ofNat width value

/-- The number that a bit string writes, the most significant bit in front. -/
def toNat (bits : Bits) : Nat :=
  bits.foldl (fun number bit => 2 * number + bit.toNat) 0

/-- The bits of a byte string, each byte from its most significant bit. -/
def ofBytes (bytes : Bytes) : Bits :=
  bytes.flatMap fun byte => ofNat 8 byte.toNat

/-- The first `count` groups of eight bits. -/
def groups : (count : Nat) → Bits → List Bits
  | 0, _ => []
  | count + 1, bits => bits.take 8 :: groups count (bits.drop 8)

/-- The bits followed by the zeros that complete the last byte. -/
def completed (bits : Bits) : Bits :=
  bits ++ List.replicate (toBoundary bits.length) false

/-- The bytes of a bit string, the last one completed with zero bits. -/
def toBytes (bits : Bits) : Bytes :=
  (groups ((bits.length + 7) / 8) bits.completed).map fun group => UInt8.ofNat group.toNat

/-- The same groups of eight bits in the opposite order. -/
def swapGroups (bits : Bits) : Bits :=
  (groups (bits.length / 8) bits).reverse.flatten

@[simp]
theorem length_ofNat (width value : Nat) : (ofNat width value).length = width := by
  induction width with
  | zero => rfl
  | succ width ih => simp [ofNat, ih]

@[simp]
theorem ofNat_zero_width (value : Nat) : ofNat 0 value = [] := rfl

@[simp]
theorem toNat_nil : toNat [] = 0 := rfl

private theorem foldl_eq (bits : Bits) (number : Nat) :
    bits.foldl (fun number bit => 2 * number + bit.toNat) number =
      number * 2 ^ bits.length + toNat bits := by
  induction bits generalizing number with
  | nil => simp [toNat]
  | cons bit bits ih =>
      rw [List.foldl_cons, ih]
      conv => rhs; rw [toNat, List.foldl_cons, ih]
      simp only [List.length_cons, Nat.pow_succ]
      rw [Nat.add_mul, Nat.mul_comm 2 number, Nat.mul_assoc, Nat.mul_comm 2, Nat.mul_zero,
        Nat.zero_add, Nat.add_assoc]

/-- The first bit has the weight `2 ^ bits.length`. -/
theorem toNat_cons (bit : Bool) (bits : Bits) :
    toNat (bit :: bits) = bit.toNat * 2 ^ bits.length + toNat bits := by
  rw [toNat, List.foldl_cons, foldl_eq]
  simp

/-- The front has the weight `2 ^ back.length`. -/
theorem toNat_append (front back : Bits) :
    toNat (front ++ back) = toNat front * 2 ^ back.length + toNat back := by
  rw [toNat, List.foldl_append, foldl_eq]
  rfl

theorem toNat_lt (bits : Bits) : toNat bits < 2 ^ bits.length := by
  induction bits with
  | nil => simp
  | cons bit bits ih =>
      rw [toNat_cons, List.length_cons, Nat.pow_succ]
      cases bit <;> simp <;> omega

/-- `toNat` after `ofNat width` is the remainder modulo `2 ^ width`. -/
theorem toNat_ofNat (width value : Nat) : toNat (ofNat width value) = value % 2 ^ width := by
  induction width with
  | zero => simp [Nat.mod_one]
  | succ width ih =>
      rw [ofNat, toNat_cons, ih, length_ofNat, Nat.mod_pow_succ, Nat.toNat_testBit]
      rw [Nat.mul_comm, Nat.add_comm]

private theorem ofNat_mod_of_le {narrow width : Nat} (le : narrow ≤ width) (value : Nat) :
    ofNat narrow (value % 2 ^ width) = ofNat narrow value := by
  induction narrow with
  | zero => rfl
  | succ narrow ih =>
      have lt : narrow < width := le
      rw [ofNat, ofNat, ih (by omega), Nat.testBit_mod_two_pow]
      simp [lt]

/-- `ofNat width` depends on the remainder modulo `2 ^ width` only. -/
theorem ofNat_mod (width value : Nat) : ofNat width (value % 2 ^ width) = ofNat width value :=
  ofNat_mod_of_le (Nat.le_refl width) value

/-- `ofNat` at the length of a bit string is inverse to `toNat`. -/
theorem ofNat_toNat (bits : Bits) : ofNat bits.length (toNat bits) = bits := by
  induction bits with
  | nil => rfl
  | cons bit bits ih =>
      have small := toNat_lt bits
      have low : toNat (bit :: bits) % 2 ^ bits.length = toNat bits := by
        rw [toNat_cons, Nat.mul_add_mod_self_right, Nat.mod_eq_of_lt small]
      have tail : ofNat bits.length (toNat (bit :: bits)) = bits := by
        rw [← ofNat_mod, low, ih]
      have head : (toNat (bit :: bits)).testBit bits.length = bit := by
        rw [Nat.testBit_eq_decide_div_mod_eq, toNat_cons,
          Nat.mul_comm, Nat.mul_add_div (Nat.two_pow_pos _), Nat.div_eq_of_lt small]
        cases bit <;> simp
      rw [List.length_cons, ofNat, tail, head]

@[simp]
theorem ofBytes_nil : ofBytes [] = [] := rfl

@[simp]
theorem ofBytes_cons (byte : UInt8) (bytes : Bytes) :
    ofBytes (byte :: bytes) = ofNat 8 byte.toNat ++ ofBytes bytes := rfl

@[simp]
theorem ofBytes_append (front back : Bytes) :
    ofBytes (front ++ back) = ofBytes front ++ ofBytes back := by
  simp [ofBytes]

@[simp]
theorem length_ofBytes (bytes : Bytes) : (ofBytes bytes).length = 8 * bytes.length := by
  induction bytes with
  | nil => rfl
  | cons byte bytes ih =>
      rw [ofBytes_cons, List.length_append, ih, length_ofNat, List.length_cons]
      omega

@[simp]
theorem length_groups (count : Nat) (bits : Bits) : (groups count bits).length = count := by
  induction count generalizing bits with
  | zero => rfl
  | succ count ih => simp [groups, ih]

@[simp]
theorem length_completed (bits : Bits) :
    bits.completed.length = bits.length + toBoundary bits.length := by
  simp [completed]

/-- `toBytes` gives the length divided by eight, rounded up. -/
@[simp]
theorem length_toBytes (bits : Bits) : bits.toBytes.length = (bits.length + 7) / 8 := by
  simp [toBytes]

end Bits

end BitRecord
