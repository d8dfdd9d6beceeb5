/-
# Bytes in hexadecimal digits

The digits that bytes are shown in are read as the same bytes again.
-/

import BitRecord.Text.Hex

namespace BitRecord.Hex

/-- A digit has its value, is no blank and is one of the first 128 characters. -/
private theorem digit_spec : ∀ value : Fin 16, digit? (digit value) = some value.val ∧
    isBlank (digit value) = false ∧ (digit value).toNat < 128 := by
  decide

theorem digit?_digit {value : Nat} (small : value < 16) : digit? (digit value) = some value :=
  (digit_spec ⟨value, small⟩).1

theorem isBlank_digit {value : Nat} (small : value < 16) : isBlank (digit value) = false :=
  (digit_spec ⟨value, small⟩).2.1

theorem toNat_digit_lt {value : Nat} (small : value < 16) : (digit value).toNat < 128 :=
  (digit_spec ⟨value, small⟩).2.2

private theorem div_sixteen_lt (byte : UInt8) : byte.toNat / 16 < 16 :=
  Nat.div_lt_of_lt_mul byte.toNat_lt

private theorem mod_sixteen_lt (byte : UInt8) : byte.toNat % 16 < 16 :=
  Nat.mod_lt _ (by decide)

/-- `readPairs` is inverse to `ofByte`, from any position on. -/
theorem readPairs_ofByte (position : Nat) (bytes : Bytes) :
    readPairs position (bytes.flatMap ofByte) = .ok bytes := by
  induction bytes generalizing position with
  | nil => rfl
  | cons byte bytes ih =>
      have high := div_sixteen_lt byte
      have low := mod_sixteen_lt byte
      have whole : UInt8.ofNat (16 * (byte.toNat / 16) + byte.toNat % 16) = byte := by
        rw [Nat.div_add_mod, UInt8.ofNat_toNat]
      rw [List.flatMap_cons, ofByte, List.cons_append, List.cons_append, List.nil_append, readPairs,
        isBlank_digit high, digit?_digit high, digit?_digit low]
      simp only [Bool.false_eq_true, if_false, ih, whole]
      rfl

/-- `toBytes` is inverse to `ofBytes`. -/
theorem toBytes_ofBytes (bytes : Bytes) : toBytes (ofBytes bytes).toList = .ok bytes := by
  have plain : (bytes.flatMap ofByte).findIdx? (fun character => 128 ≤ character.toNat) = none := by
    rw [List.findIdx?_eq_none_iff]
    intro character member
    obtain ⟨byte, _, own⟩ := List.mem_flatMap.mp member
    have narrow : character.toNat < 128 := by
      rcases List.mem_cons.mp own with rfl | second
      · exact toNat_digit_lt (div_sixteen_lt byte)
      · rw [List.mem_singleton.mp second]
        exact toNat_digit_lt (mod_sixteen_lt byte)
    simpa using narrow
  rw [toBytes, ofBytes, String.toList_ofList, plain]
  exact readPairs_ofByte 0 bytes

end BitRecord.Hex
