/-
# Quoting bytes is injective

The characters that `Quoted.byte` writes for a byte determine their own length
and the byte. So `Quoted.ofBytes` is injective, for either of the two marks.
-/

import BitRecord.Text.Quoted

namespace BitRecord.Quoted

/-! ## One byte -/

/-- The number of characters of the escape or character at the head of a quoted text. -/
def unitLength : List Char → Nat
  | '\\' :: 'x' :: _ => 4
  | '\\' :: _ => 2
  | _ => 1

/-- The value of the byte that `byte` writes as `characters`. -/
def unitValue : List Char → Nat
  | ['\\', 'x', high, low] => 16 * (Hex.digit? high).getD 0 + (Hex.digit? low).getD 0
  | ['\\', 't'] => 9
  | ['\\', 'n'] => 10
  | ['\\', 'r'] => 13
  | ['\\', character] => character.toNat
  | [character] => character.toNat
  | _ => 0

variable {mark : Char}

/-- `mark` is an apostrophe or a double quotation mark. -/
theorem mark_cases (hasApostrophe hasDouble : Bool) :
    Quoted.mark hasApostrophe hasDouble = '\'' ∨ Quoted.mark hasApostrophe hasDouble = '"' := by
  cases hasApostrophe <;> cases hasDouble <;> decide

private theorem unitValue_spec : ∀ number : Fin 256,
    unitValue (byte '\'' (UInt8.ofNat number)) = number ∧
      unitValue (byte '"' (UInt8.ofNat number)) = number := by
  decide +kernel

/-- `unitValue` undoes `byte`. -/
theorem unitValue_byte (known : mark = '\'' ∨ mark = '"') (value : UInt8) :
    unitValue (byte mark value) = value.toNat := by
  have own := unitValue_spec ⟨value.toNat, value.toNat_lt⟩
  rw [UInt8.ofNat_toNat] at own
  rcases known with rfl | rfl
  · exact own.1
  · exact own.2

/-- A `shortEscape?` has two characters, the second of which is not `x`. -/
theorem exists_of_shortEscape? (known : mark = '\'' ∨ mark = '"') {character : Char}
    {escape : List Char} (own : shortEscape? mark character = some escape) :
    ∃ second, second ≠ 'x' ∧ escape = ['\\', second] := by
  unfold shortEscape? at own
  split at own
  · rename_i needed
    have other : character ≠ 'x' := by
      rintro rfl
      rcases needed with backslash | rfl <;> contradiction
    exact ⟨character, other, (Option.some.inj own).symm⟩
  · split at own
    · exact ⟨'t', by decide, (Option.some.inj own).symm⟩
    · split at own
      · exact ⟨'n', by decide, (Option.some.inj own).symm⟩
      · split at own
        · exact ⟨'r', by decide, (Option.some.inj own).symm⟩
        · contradiction

theorem ne_backslash_of_shortEscape? {character : Char} (own : shortEscape? mark character = none) :
    character ≠ '\\' := by
  rintro rfl
  rw [shortEscape?, if_pos (.inl rfl)] at own
  contradiction

theorem unitLength_escape {second : Char} (other : second ≠ 'x') (rest : List Char) :
    unitLength ('\\' :: second :: rest) = 2 := by
  unfold unitLength
  split
  · rename_i numbered
    exact absurd (List.head_eq_of_cons_eq (List.tail_eq_of_cons_eq numbered)) other
  · rfl
  · rename_i unescaped
    exact absurd rfl (unescaped (second :: rest))

theorem unitLength_plain {character : Char} (other : character ≠ '\\') (rest : List Char) :
    unitLength (character :: rest) = 1 := by
  unfold unitLength
  split
  · rename_i escaped
    exact absurd (List.head_eq_of_cons_eq escaped) other
  · rename_i escaped
    exact absurd (List.head_eq_of_cons_eq escaped) other
  · rfl

/-- `unitLength` is the length of `byte` with any characters behind it. -/
theorem unitLength_byte (known : mark = '\'' ∨ mark = '"') (value : UInt8) (rest : List Char) :
    unitLength (byte mark value ++ rest) = (byte mark value).length := by
  rw [byte]
  split
  · rename_i escape own
    obtain ⟨second, other, rfl⟩ := exists_of_shortEscape? known own
    exact unitLength_escape other rest
  · rename_i own
    split
    · exact unitLength_plain (ne_backslash_of_shortEscape? own) rest
    · rfl

/-- Equal texts that start with `byte` start with the same byte and have the same rest. -/
theorem byte_append_inj (known : mark = '\'' ∨ mark = '"') {first second : UInt8}
    {behind_first behind_second : List Char}
    (same : byte mark first ++ behind_first = byte mark second ++ behind_second) :
    first = second ∧ behind_first = behind_second := by
  have lengths : (byte mark first).length = (byte mark second).length := by
    rw [← unitLength_byte known first behind_first, same, unitLength_byte known]
  obtain ⟨units, behind⟩ := List.append_inj same lengths
  refine ⟨UInt8.toNat_inj.mp ?_, behind⟩
  rw [← unitValue_byte known, units, unitValue_byte known]

/-- `byte` is never empty. -/
theorem byte_ne_nil (known : mark = '\'' ∨ mark = '"') (value : UInt8) : byte mark value ≠ [] := by
  intro empty
  have length := unitLength_byte known value []
  rw [empty] at length
  contradiction

/-! ## Bytes -/

/-- The bytes inside of a mark are written injectively. -/
theorem flatMap_byte_injective (known : mark = '\'' ∨ mark = '"') :
    Function.Injective fun bytes : Bytes => bytes.flatMap (byte mark) := by
  intro first second same
  induction first generalizing second with
  | nil =>
      cases second with
      | nil => rfl
      | cons value others =>
          exact absurd (List.append_eq_nil_iff.mp same.symm).1 (byte_ne_nil known value)
  | cons value others ih =>
      cases second with
      | nil => exact absurd (List.append_eq_nil_iff.mp same).1 (byte_ne_nil known value)
      | cons other_value other_others =>
          obtain ⟨rfl, behind⟩ := byte_append_inj known same
          rw [ih behind]

/-- `ofBytes` is injective: the mark at its head is the one that `byte` is given. -/
theorem ofBytes_injective : Function.Injective ofBytes := by
  intro first second same
  have characters := String.ofList_injective same
  have behind := List.tail_eq_of_cons_eq characters
  have marks : bytesMark first = bytesMark second := List.head_eq_of_cons_eq behind
  have inside := List.tail_eq_of_cons_eq behind
  rw [marks] at inside
  exact flatMap_byte_injective (mark_cases _ _) (List.append_cancel_right inside)

end BitRecord.Quoted
