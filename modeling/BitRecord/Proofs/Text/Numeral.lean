/-
# Ways to write an integer

An integer can be written in decimal digits, or in the digits of another base
behind the mark of the base, after a minus sign where it has one. Behind a mark
the digits may start with zeros, and letters may be of either case; a decimal
number other than zero does not start with a zero. Whatever way is chosen, the
integer is read, and the digits in which integers are shown are one such way.
Only the number of decimal digits is limited, and a text of too many is refused
by their number.
-/

import BitRecord.Text.Numeral
import Mathlib.Data.List.Basic

namespace BitRecord.Numeral

/-! ## Writing -/

/-- The bases that an integer can be written in. -/
inductive Base where
  | decimal
  | hexadecimal
  | octal
  | binary
  deriving DecidableEq

namespace Base

/-- The number of digits of a base. -/
def radix : Base → Nat
  | decimal => 10
  | hexadecimal => 16
  | octal => 8
  | binary => 2

/-- The mark in front of the digits of a base. -/
def mark : Base → List Char
  | decimal => []
  | hexadecimal => ['0', 'x']
  | octal => ['0', 'o']
  | binary => ['0', 'b']

theorem one_lt_radix (base : Base) : 1 < base.radix := by
  cases base <;> decide

theorem radix_le (base : Base) : base.radix ≤ 16 := by
  cases base <;> decide

end Base

/-- The characters of a digit: a letter can be of either case. -/
inductive ShowsDigit (digit : Nat) : Char → Prop
  | lower : ShowsDigit digit (Nat.digitChar digit)
  | upper : ShowsDigit digit (Nat.digitChar digit).toUpper

/-- The texts of at least one digit for a number, the most significant digit in front. -/
inductive Spells (radix : Nat) : List Char → Nat → Prop
  | single {digit : Nat} {character : Char} : digit < radix → ShowsDigit digit character →
      Spells radix [character] digit
  | append {text : List Char} {number digit : Nat} {character : Char} : Spells radix text number →
      digit < radix → ShowsDigit digit character →
      Spells radix (text ++ [character]) (radix * number + digit)

/-- The digits of a number behind the mark of a base. -/
structure Base.Takes (base : Base) (digits : List Char) (number : Nat) : Prop where
  spells : Spells base.radix digits number
  /-- A zero in front of decimal digits is followed by zeros only. -/
  leading : base = .decimal → digits.head? = some '0' → number = 0
  /-- There are no more decimal digits than `DigitLimit.digits`. -/
  short : base = .decimal → digits.length ≤ DigitLimit.digits

/-- The texts of an integer. A sign in front of zero makes no difference. -/
inductive Writes : List Char → Int → Prop
  | unsigned {digits : List Char} {number : Nat} (base : Base) : base.Takes digits number →
      Writes (base.mark ++ digits) number
  | negative {digits : List Char} {number : Nat} (base : Base) : base.Takes digits number →
      Writes ('-' :: (base.mark ++ digits)) (-number)

/-- The shortest text of an integer in a base. -/
def Base.text (base : Base) (number : Int) : List Char :=
  (if number < 0 then ['-'] else []) ++ (base.mark ++ Nat.toDigits base.radix number.natAbs)

/-- `Nat.toDigits` spells its number. -/
theorem spells_toDigits {radix : Nat} (several : 1 < radix) (number : Nat) :
    Spells radix (Nat.toDigits radix number) number := by
  induction number using Nat.base_induction radix several with
  | single digit small =>
      rw [Nat.toDigits_of_lt_base small]
      exact .single small .lower
  | digit number digit small positive ih =>
      rw [← Nat.toDigits_append_toDigits several positive small, Nat.toDigits_of_lt_base small]
      exact .append ih small .lower

/-- `Nat.toDigits` starts with a zero for zero only. -/
theorem eq_zero_of_head?_toDigits (number : Nat) :
    (Nat.toDigits 10 number).head? = some '0' → number = 0 := by
  induction number using Nat.base_induction 10 (by decide) with
  | single digit small =>
      rw [Nat.toDigits_of_lt_base small, List.head?_cons, Option.some.injEq]
      have only : ∀ digit : Fin 10, Nat.digitChar digit = '0' → digit.val = 0 := by decide
      exact only ⟨digit, small⟩
  | digit number digit small positive ih =>
      rw [← Nat.toDigits_append_toDigits (by decide) positive small,
        List.head?_append_of_ne_nil _ Nat.toDigits_ne_nil]
      intro zero
      exact absurd (ih zero) (Nat.ne_of_gt positive)

/-- `DigitLimit.canWrite` bounds the number of decimal digits by `DigitLimit.digits`. -/
theorem canWrite_iff_length (number : Int) :
    DigitLimit.canWrite number = true ↔
      (Nat.toDigits 10 number.natAbs).length ≤ DigitLimit.digits := by
  rw [DigitLimit.canWrite_iff, DigitLimit.bound_eq,
    Nat.length_toDigits_le_iff (by decide) (by decide)]

theorem Base.takes_toDigits (base : Base) {number : Int}
    (short : base = .decimal → DigitLimit.canWrite number = true) :
    base.Takes (Nat.toDigits base.radix number.natAbs) number.natAbs where
  spells := spells_toDigits base.one_lt_radix number.natAbs
  leading := by
    rintro rfl
    exact eq_zero_of_head?_toDigits number.natAbs
  short := by
    rintro rfl
    exact (canWrite_iff_length number).mp (short rfl)

/-- The shortest text of an integer is one of its texts, unless its decimal digits are too many. -/
theorem writes_text (base : Base) {number : Int}
    (short : base = .decimal → DigitLimit.canWrite number = true) :
    Writes (base.text number) number := by
  have takes := base.takes_toDigits short
  rw [Base.text]
  split
  · have own : -(number.natAbs : Int) = number := by omega
    have written := Writes.negative base takes
    rwa [own] at written
  · have own : (number.natAbs : Int) = number := by omega
    have written := Writes.unsigned base takes
    rwa [own] at written

/-- `toString` gives the decimal text. -/
theorem toList_toString (number : Int) : (toString number).toList = Base.decimal.text number := by
  rw [Int.toString_eq_repr, Int.repr_eq_if, Base.text]
  split
  · rename_i positive
    rw [if_neg (Int.not_lt.mpr positive), Nat.toList_repr, ← Int.toNat_of_nonneg positive]
    rfl
  · rename_i negative
    have magnitude : (-number).toNat = number.natAbs := by omega
    rw [if_pos (Int.not_le.mp negative), String.toList_append, Nat.toList_repr, magnitude]
    rfl

/-! ## Characters -/

/-- The characters of digits up to the fifteen. -/
def digitCharacters : List Char :=
  (List.range 16).flatMap fun digit => [Nat.digitChar digit, (Nat.digitChar digit).toUpper]

/-- The characters of the texts of integers. -/
def textCharacters : List Char := '-' :: 'x' :: 'o' :: digitCharacters

private theorem shows_spec : ∀ digit : Fin 16,
    digitValue? (Nat.digitChar digit) = some digit.val ∧
      digitValue? (Nat.digitChar digit).toUpper = some digit.val := by
  decide

private theorem shows_decimal_spec : ∀ digit : Fin 10,
    base? (Nat.digitChar digit) = none ∧ base? (Nat.digitChar digit).toUpper = none := by
  decide

/-- No digit is the underscore between digits, or a sign. -/
theorem digitCharacters_spec {character : Char} (own : character ∈ digitCharacters) :
    character ≠ '_' ∧ character ≠ '-' ∧ character ≠ '+' := by
  have all : digitCharacters.all fun character =>
      character ≠ '_' ∧ character ≠ '-' ∧ character ≠ '+' := by
    decide
  exact of_decide_eq_true (List.all_eq_true.mp all character own)

/-- No character of an integer is a blank, or a mark of something else. -/
theorem textCharacters_spec {character : Char} (own : character ∈ textCharacters) :
    character.toNat < 128 ∧ Hex.isBlank character = false ∧ character ≠ ',' ∧ character ≠ ':' := by
  have all : textCharacters.all fun character =>
      character.toNat < 128 ∧ Hex.isBlank character = false ∧ character ≠ ',' ∧
        character ≠ ':' := by
    decide
  exact of_decide_eq_true (List.all_eq_true.mp all character own)

namespace ShowsDigit

variable {digit : Nat} {character : Char}

theorem mem_digitCharacters (shows : ShowsDigit digit character) (small : digit < 16) :
    character ∈ digitCharacters := by
  refine List.mem_flatMap.mpr ⟨digit, List.mem_range.mpr small, ?_⟩
  cases shows with
  | lower => exact List.mem_cons_self
  | upper => exact List.mem_cons_of_mem _ List.mem_cons_self

/-- A digit of a base is read as its value. -/
theorem digit?_eq {radix : Nat} (shows : ShowsDigit digit character) (small : digit < radix)
    (narrow : radix ≤ 16) : digit? radix character = some digit := by
  have spec := shows_spec ⟨digit, Nat.lt_of_lt_of_le small narrow⟩
  have value : digitValue? character = some digit := by
    cases shows with
    | lower => exact spec.1
    | upper => exact spec.2
  rw [digit?, value]
  exact Option.filter_some_pos (decide_eq_true small)

/-- No decimal digit is the letter of a mark. -/
theorem base?_eq_none (shows : ShowsDigit digit character) (small : digit < 10) :
    base? character = none := by
  have spec := shows_decimal_spec ⟨digit, small⟩
  cases shows with
  | lower => exact spec.1
  | upper => exact spec.2

end ShowsDigit

namespace Spells

variable {radix number : Nat} {text : List Char} {character : Char}

/-- There is at least one digit. -/
theorem ne_nil (spells : Spells radix text number) : text ≠ [] := by
  cases spells with
  | single => exact List.cons_ne_nil _ _
  | append => exact List.append_ne_nil_of_right_ne_nil _ (List.cons_ne_nil _ _)

/-- The characters of digits are digits. -/
theorem exists_of_mem (spells : Spells radix text number) (member : character ∈ text) :
    ∃ digit, digit < radix ∧ ShowsDigit digit character := by
  induction spells with
  | single small shows =>
      rw [List.mem_singleton.mp member]
      exact ⟨_, small, shows⟩
  | append _ small shows ih =>
      rcases List.mem_append.mp member with front | last
      · exact ih front
      · rw [List.mem_singleton.mp last]
        exact ⟨_, small, shows⟩

theorem mem_digitCharacters (spells : Spells radix text number) (narrow : radix ≤ 16)
    (member : character ∈ text) : character ∈ digitCharacters := by
  obtain ⟨digit, small, shows⟩ := spells.exists_of_mem member
  exact shows.mem_digitCharacters (Nat.lt_of_lt_of_le small narrow)

end Spells

/-- The marks consist of characters of integers. -/
theorem Base.mark_subset (base : Base) : base.mark ⊆ textCharacters := by
  cases base <;> decide

theorem Base.Takes.mem_textCharacters {base : Base} {digits : List Char} {number : Nat}
    (takes : base.Takes digits number) {character : Char}
    (member : character ∈ base.mark ++ digits) : character ∈ textCharacters := by
  rcases List.mem_append.mp member with front | behind
  · exact base.mark_subset front
  · have digit := takes.spells.mem_digitCharacters base.radix_le behind
    exact List.mem_append_right ['-', 'x', 'o'] digit

theorem Writes.mem_textCharacters {text : List Char} {number : Int} (writes : Writes text number)
    {character : Char} (member : character ∈ text) : character ∈ textCharacters := by
  cases writes with
  | unsigned base takes => exact takes.mem_textCharacters member
  | negative base takes =>
      rcases List.mem_cons.mp member with rfl | behind
      · exact List.mem_cons_self
      · exact takes.mem_textCharacters behind

/-- No text of an integer is empty. -/
theorem Writes.ne_nil {text : List Char} {number : Int} (writes : Writes text number) :
    text ≠ [] := by
  cases writes with
  | unsigned base takes => exact List.append_ne_nil_of_right_ne_nil _ takes.spells.ne_nil
  | negative base takes => exact List.cons_ne_nil _ _

/-! ## Reading -/

/-- `continueDigits` takes a digit. The underscore is no digit, so no digit is taken for one. -/
theorem continueDigits_cons {radix number digit : Nat} {character : Char} (rest : List Char)
    (own : digit? radix character = some digit) :
    continueDigits radix number (character :: rest) =
      continueDigits radix (radix * number + digit) rest := by
  conv_lhs => unfold continueDigits
  split
  · contradiction
  · rename_i grouped
    rw [List.head_eq_of_cons_eq grouped] at own
    contradiction
  · rename_i whole
    rw [← List.head_eq_of_cons_eq whole, ← List.tail_eq_of_cons_eq whole, own]

/-- `continueDigits` of one more digit multiplies by the radix and adds the digit. -/
theorem continueDigits_append {radix number total digit : Nat} {text : List Char}
    {character : Char} (read : continueDigits radix number text = some total)
    (own : digit? radix character = some digit) :
    continueDigits radix number (text ++ [character]) = some (radix * total + digit) := by
  fun_induction continueDigits radix number text with
  | case1 number =>
      rw [List.nil_append, continueDigits_cons [] own, Option.some.inj read]
      rfl
  | case2 number following rest value known ih =>
      rw [List.cons_append, List.cons_append, continueDigits, known]
      exact ih read
  | case3 => contradiction
  | case4 number first rest _ value known ih =>
      rw [List.cons_append, continueDigits_cons _ known]
      exact ih read
  | case5 => contradiction

/-- `readDigits` reads the number that digits spell. -/
theorem Spells.readDigits_eq {radix number : Nat} {text : List Char}
    (spells : Spells radix text number) (narrow : radix ≤ 16) :
    readDigits radix text = some number := by
  induction spells with
  | single small shows =>
      rw [readDigits, shows.digit?_eq small narrow]
      rfl
  | @append text number digit character spells small shows ih =>
      have own := shows.digit?_eq small narrow
      cases text with
      | nil => contradiction
      | cons first rest =>
          rw [List.cons_append, readDigits]
          rw [readDigits] at ih
          -- Both texts start with the same digit, and reading goes on from there.
          split at ih
          · exact continueDigits_append ih own
          · contradiction

/-- `skipUnderscore` leaves digits as they are. -/
theorem Spells.skipUnderscore_eq {radix number : Nat} {text : List Char}
    (spells : Spells radix text number) (narrow : radix ≤ 16) : skipUnderscore text = text := by
  unfold skipUnderscore
  split
  · have digit := spells.mem_digitCharacters narrow List.mem_cons_self
    exact absurd rfl (digitCharacters_spec digit).1
  · rfl

namespace Base.Takes

variable {base : Base} {digits : List Char} {number : Nat}

/-- `readMagnitude` reads decimal digits, since no letter of a mark follows a zero in front of
them. -/
theorem readMagnitude_decimal (takes : Base.decimal.Takes digits number) :
    readMagnitude digits = some number := by
  have read := takes.spells.readDigits_eq Base.decimal.radix_le
  unfold readMagnitude
  split
  · rename_i letter rest
    obtain ⟨digit, small, shows⟩ :=
      takes.spells.exists_of_mem (List.mem_cons_of_mem _ List.mem_cons_self)
    rw [shows.base?_eq_none small]
    -- `read` accepts leading zeros only for the number zero, which is the number here.
    have zero := takes.leading rfl rfl
    change (readDigits Base.decimal.radix ('0' :: letter :: rest)).filter _ = _
    rw [read, zero]
    rfl
  · exact read

/-- `readMagnitude` reads digits behind the mark of their base. -/
theorem readMagnitude_eq (takes : base.Takes digits number) :
    readMagnitude (base.mark ++ digits) = some number := by
  have read := takes.spells.readDigits_eq base.radix_le
  have skip := takes.spells.skipUnderscore_eq base.radix_le
  cases base with
  | decimal => exact takes.readMagnitude_decimal
  | hexadecimal | octal | binary => exact (congrArg (readDigits _) skip).trans read

/-- A number that is written without a sign starts with a digit. -/
theorem head_mem {rest : List Char} {first : Char} (takes : base.Takes digits number)
    (starts : base.mark ++ digits = first :: rest) : first ∈ digitCharacters := by
  cases base with
  | decimal =>
      have own : digits = first :: rest := starts
      have member : first ∈ digits := own ▸ List.mem_cons_self
      exact takes.spells.mem_digitCharacters Base.decimal.radix_le member
  | hexadecimal | octal | binary =>
      rw [← List.head_eq_of_cons_eq starts]
      decide

/-- A number that is written without a sign is read as it stands. -/
theorem readSigned_eq (takes : base.Takes digits number) :
    readSigned (base.mark ++ digits) = some (number : Int) := by
  have read := takes.readMagnitude_eq
  unfold readSigned
  split
  · rename_i starts
    exact absurd rfl (digitCharacters_spec (takes.head_mem starts)).2.1
  · rename_i starts
    exact absurd rfl (digitCharacters_spec (takes.head_mem starts)).2.2
  · rw [read]
    rfl

end Base.Takes

/-- Nothing is left out in front of a character that is no blank. -/
theorem dropWhile_isBlank {text : List Char}
    (solid : ∀ first, text.head? = some first → Hex.isBlank first = false) :
    text.dropWhile Hex.isBlank = text := by
  cases text with
  | nil => rfl
  | cons first rest => exact List.dropWhile_cons_of_neg (by simp [solid first rfl])

/-- Nothing is left out at the ends of a text without blanks. -/
theorem trim_eq_self {text : List Char}
    (solid : ∀ character ∈ text, Hex.isBlank character = false) : trim text = text := by
  have front : text.dropWhile Hex.isBlank = text :=
    dropWhile_isBlank fun first own => solid first (List.mem_of_head? own)
  have back : text.reverse.dropWhile Hex.isBlank = text.reverse :=
    dropWhile_isBlank fun last own =>
      solid last (List.mem_reverse.mp (List.mem_of_head? own))
  rw [trim, front, back, List.reverse_reverse]

/-- What is in front of a text stays there when it is no blank. -/
theorem exists_trim_cons {first : Char} (solid : Hex.isBlank first = false) (text : List Char) :
    ∃ rest, trim (first :: text) = first :: rest := by
  have front : (first :: text).dropWhile Hex.isBlank = first :: text :=
    dropWhile_isBlank fun _ own => Option.some.inj own ▸ solid
  have last : [first].dropWhile Hex.isBlank = [first] :=
    dropWhile_isBlank fun _ own => Option.some.inj own ▸ solid
  rw [trim, front, List.reverse_cons, List.dropWhile_append, last]
  split
  · exact ⟨[], rfl⟩
  · exact ⟨_, by rw [List.reverse_append, List.reverse_singleton, List.singleton_append]⟩

/-! ## Counting digits -/

/-- `continueCount` counts a digit. -/
theorem continueCount_cons {count : Nat} {character : Char} (rest : List Char)
    (own : (digit? 10 character).isSome = true) :
    continueCount count (character :: rest) = continueCount (count + 1) rest := by
  conv_lhs => unfold continueCount
  split
  · contradiction
  · rename_i last
    rw [List.head_eq_of_cons_eq last] at own
    contradiction
  · rename_i grouped
    rw [List.head_eq_of_cons_eq grouped] at own
    contradiction
  · rename_i whole
    rw [← List.head_eq_of_cons_eq whole, ← List.tail_eq_of_cons_eq whole, if_pos own]

/-- `continueCount` counts every digit of a text of digits. -/
theorem continueCount_eq {count : Nat} {text : List Char}
    (own : ∀ character ∈ text, (digit? 10 character).isSome = true) :
    continueCount count text = count + text.length := by
  induction text generalizing count with
  | nil => rfl
  | cons first rest ih =>
      rw [continueCount_cons rest (own first List.mem_cons_self),
        ih fun character member => own character (List.mem_cons_of_mem _ member),
        List.length_cons]
      omega

/-- `decimalCount` is the number of digits of a decimal number. -/
theorem Spells.decimalCount_eq {digits : List Char} {number : Nat}
    (spells : Spells 10 digits number) : decimalCount digits = digits.length := by
  have own (character : Char) (member : character ∈ digits) :
      (digit? 10 character).isSome = true ∧ base? character = none := by
    obtain ⟨digit, small, shows⟩ := spells.exists_of_mem member
    rw [shows.digit?_eq small (by decide)]
    exact ⟨rfl, shows.base?_eq_none small⟩
  cases digits with
  | nil => exact absurd rfl spells.ne_nil
  | cons first rest =>
      -- The character behind a leading zero is a digit and so marks no other base.
      have unmarked : rest.head?.bind base? = none := by
        cases rest with
        | nil => rfl
        | cons second others =>
            exact (own second (List.mem_cons_of_mem _ List.mem_cons_self)).2
      rw [decimalCount, unmarked, if_neg (by simp), if_pos (own first List.mem_cons_self).1,
        continueCount_eq fun character member => (own character (List.mem_cons_of_mem _ member)).1,
        List.length_cons]
      omega

/-- `withoutSign` leaves a text without a sign as it is. -/
theorem withoutSign_eq_self {text : List Char}
    (bare : ∀ first, text.head? = some first → first ≠ '-' ∧ first ≠ '+') :
    withoutSign text = text := by
  unfold withoutSign
  split
  · exact absurd rfl (bare '-' rfl).1
  · exact absurd rfl (bare '+' rfl).2
  · rfl

namespace Base.Takes

variable {base : Base} {digits : List Char} {number : Nat}

/-- `decimalCount` is within the limit: it is zero behind a mark. -/
theorem canRead_decimalCount (takes : base.Takes digits number) :
    DigitLimit.canRead (decimalCount (base.mark ++ digits)) = true := by
  cases base with
  | decimal =>
      change DigitLimit.canRead (decimalCount digits) = true
      rw [takes.spells.decimalCount_eq]
      exact DigitLimit.canRead_iff.mpr (takes.short rfl)
  | hexadecimal | octal | binary => rfl

/-- `withoutSign` leaves a mark and digits as they are. -/
theorem withoutSign_eq (takes : base.Takes digits number) :
    withoutSign (base.mark ++ digits) = base.mark ++ digits := by
  refine withoutSign_eq_self fun first starts => ?_
  obtain ⟨rest, own⟩ := List.head?_eq_some_iff.mp starts
  exact (digitCharacters_spec (takes.head_mem own)).2

end Base.Takes

/-! ## Whole texts -/

/-- `read` is `readPlain` on characters of integers: none is a blank or a digit of another
script. -/
theorem read_of_textCharacters {text : List Char}
    (own : ∀ character ∈ text, character ∈ textCharacters) : read text = readPlain text := by
  have plain : text.map Digits.plain = text :=
    (List.map_congr_left fun character member =>
      if_pos (textCharacters_spec (own character member)).1).trans (List.map_id text)
  rw [read, plain, trim_eq_self fun character member =>
    (textCharacters_spec (own character member)).2.1]

/-- `read` reads each text of an integer. -/
theorem Writes.read_eq {text : List Char} {number : Int} (writes : Writes text number) :
    read text = .ok number := by
  rw [read_of_textCharacters fun _ => writes.mem_textCharacters, readPlain]
  cases writes with
  | unsigned base takes =>
      rw [takes.withoutSign_eq, takes.canRead_decimalCount, takes.readSigned_eq]
      rfl
  | negative base takes =>
      rw [withoutSign, takes.canRead_decimalCount, readSigned, takes.readMagnitude_eq]
      rfl

/-- Decimal digits are decimal characters. -/
theorem mem_digitCharacters_of_toDigits {number : Nat} {character : Char}
    (member : character ∈ Nat.toDigits 10 number) : character ∈ digitCharacters :=
  (spells_toDigits (by decide) number).mem_digitCharacters (by decide) member

theorem Base.mem_textCharacters_decimal {number : Int} {character : Char}
    (member : character ∈ decimal.text number) : character ∈ textCharacters := by
  rcases List.mem_append.mp member with sign | digits
  · split at sign
    · rw [List.mem_singleton.mp sign]
      exact List.mem_cons_self
    · contradiction
  · exact List.mem_append_right ['-', 'x', 'o'] (mem_digitCharacters_of_toDigits digits)

/-- `read` refuses the decimal text of an integer of more than 4300 digits with `Flaw.tooLong`. -/
theorem read_decimal_text_of_long {number : Int} (long : DigitLimit.canWrite number = false) :
    read (Base.decimal.text number) =
      .error (.tooLong (Nat.toDigits 10 number.natAbs).length) := by
  have spells : Spells 10 (Nat.toDigits 10 number.natAbs) number.natAbs :=
    spells_toDigits (by decide) number.natAbs
  have refused : DigitLimit.canRead (Nat.toDigits 10 number.natAbs).length = false := by
    rw [Bool.eq_false_iff, ne_eq, DigitLimit.canRead_iff, ← canWrite_iff_length, long]
    exact Bool.false_ne_true
  have bare : withoutSign (Base.decimal.text number) = Nat.toDigits 10 number.natAbs := by
    rw [Base.text]
    split
    · rfl
    · exact withoutSign_eq_self fun first starts =>
        (digitCharacters_spec (mem_digitCharacters_of_toDigits (List.mem_of_head? starts))).2
  rw [read_of_textCharacters fun _ => Base.mem_textCharacters_decimal, readPlain, bare,
    spells.decimalCount_eq, refused]
  rfl

/-- `read` refuses a text that starts with a letter of another kind of value. -/
theorem read_of_letter {letter : Char} (marks : letter = 's' ∨ letter = 'x') (rest : List Char) :
    read (letter :: rest) = .error .malformed := by
  have solid : Hex.isBlank letter = false := by
    rcases marks with rfl | rfl <;> decide
  have plain : Digits.plain letter = letter := by
    rcases marks with rfl | rfl <;> rfl
  obtain ⟨behind, trimmed⟩ := exists_trim_cons solid (rest.map Digits.plain)
  rw [read, List.map_cons, plain, trimmed]
  rcases marks with rfl | rfl <;> rfl

end BitRecord.Numeral
