/-
# Words that values are read from

`ValueText.parse` gives a list exactly for a text with a comma whose parts between
commas are integers or empty. So it reads the text that `ValueText.format` gives
for a list, or for an integer in either base, as the same value again, as it reads
every other text of an integer; and empty parts make no difference. Beyond the
digit limit neither `format` nor `parse` succeeds on decimal digits.
-/

import BitRecord.ValueText
import BitRecord.Proofs.Argument.Binding
import BitRecord.Proofs.Format.Items
import BitRecord.Proofs.Text.Hex
import BitRecord.Proofs.Text.Numeral

namespace BitRecord.ValueText

/-- Items with commas between them. -/
def join (items : List (List Char)) : List Char := [','].intercalate items

/-- Items with any number of empty items put in front of them, between them and behind them. -/
inductive Padded : List (List Char) → List (List Char) → Prop
  | nil : Padded [] []
  | item {items padded : List (List Char)} (item : List Char) : Padded items padded →
      Padded (item :: items) (item :: padded)
  | empty {items padded : List (List Char)} : Padded items padded → Padded items ([] :: padded)

variable {items padded : List (List Char)} {text : List Char} {values : List Value}

/-! ## Parts -/

/-- `split` is `List.splitOn`. -/
theorem split_eq_splitOn (separator : Char) (text : List Char) :
    split separator text = text.splitOn separator := by
  induction text with
  | nil => rfl
  | cons character rest ih =>
      rw [split, List.splitOn_cons_eq_if_modifyHead, ih]
      by_cases separates : character = separator
      · rw [if_pos separates, if_pos (beq_iff_eq.mpr separates)]
      · rw [if_neg separates, if_neg (by simpa using separates)]
        cases parts : rest.splitOn separator with
        | nil => exact absurd parts (List.splitOn_ne_nil separator rest)
        | cons first others => rfl

/-- The parts of joined items are the parts of the items. -/
theorem split_join (some_item : items ≠ []) :
    split ',' (join items) = items.flatMap (split ',') := by
  induction items with
  | nil => contradiction
  | cons item items ih =>
      cases items with
      | nil => rw [join, List.intercalate_singleton, List.flatMap_singleton]
      | cons next others =>
          have behind := ih (List.cons_ne_nil next others)
          rw [split_eq_splitOn, join] at behind
          rw [split_eq_splitOn, join, List.intercalate_cons_cons, List.append_assoc,
            List.singleton_append, List.splitOn_append_cons_self, behind, ← split_eq_splitOn]
          exact List.flatMap_cons.symm

/-- Two items or more have a comma between them. -/
theorem mem_join (several : 2 ≤ items.length) : ',' ∈ join items := by
  match items, several with
  | item :: next :: others, _ =>
      rw [join, List.intercalate_cons_cons]
      exact List.mem_append_left _ (List.mem_append_right _ List.mem_cons_self)

/-- The parts of padded items that are not empty are those of the items. -/
theorem Padded.filter_flatMap_split (pads : Padded items padded) :
    (padded.flatMap (split ',')).filter (fun part => !part.isEmpty) =
      (items.flatMap (split ',')).filter fun part => !part.isEmpty := by
  induction pads with
  | nil => rfl
  | item item _ ih => rw [List.flatMap_cons, List.flatMap_cons, List.filter_append,
      List.filter_append, ih]
  | empty _ ih =>
      rw [List.flatMap_cons, List.filter_append, ih]
      rfl

theorem Padded.length_le (pads : Padded items padded) : items.length ≤ padded.length := by
  induction pads with
  | nil => exact Nat.le_refl 0
  | item _ _ ih => exact Nat.succ_le_succ ih
  | empty _ ih => exact Nat.le_succ_of_le ih

/-- `parseIntegers` reads padded items as the items. -/
theorem Padded.parseIntegers_eq (pads : Padded items padded) (some_item : items ≠ []) :
    parseIntegers (join padded) = parseIntegers (join items) := by
  have some_padded : padded ≠ [] := by
    have positive := List.length_pos_of_ne_nil some_item
    exact List.ne_nil_of_length_pos (Nat.lt_of_lt_of_le positive pads.length_le)
  rw [parseIntegers, parseIntegers, split_join some_padded, split_join some_item,
    pads.filter_flatMap_split]

/-! ## Integers -/

theorem parseInteger_of_writes {number : Int} (writes : Numeral.Writes text number) :
    parseInteger text = .ok number := by
  rw [parseInteger, writes.read_eq]

/-- `parseIntegers` reads the joined texts of integers. -/
theorem parseIntegers_join {numbers : List Int} (some_item : items ≠ [])
    (each : List.Forall₂ Numeral.Writes items numbers) :
    parseIntegers (join items) = .ok numbers := by
  rw [parseIntegers, split_join some_item, mapM_eq_ok_iff]
  clear some_item
  induction each with
  | nil => exact .nil
  | @cons item number items numbers writes _ ih =>
      have whole : split ',' item = [item] := by
        rw [split_eq_splitOn]
        refine List.splitOn_eq_singleton fun comma => ?_
        exact (Numeral.textCharacters_spec (writes.mem_textCharacters comma)).2.2.1 rfl
      have counts : item.isEmpty = false := List.isEmpty_eq_false_iff.mpr writes.ne_nil
      rw [List.flatMap_cons, whole, List.singleton_append,
        List.filter_cons_of_pos (by rw [counts]; rfl)]
      exact .cons (parseInteger_of_writes writes) ih

/-- `parseIntegers` refuses a text that starts with a letter of another kind of value. -/
theorem parseIntegers_of_letter {letter : Char} (marks : letter = 's' ∨ letter = 'x')
    (rest : List Char) (numbers : List Int) : parseIntegers (letter :: rest) ≠ .ok numbers := by
  have other : letter ≠ ',' := by
    rcases marks with rfl | rfl <;> decide
  have part : ∃ first others, split ',' (letter :: rest) = (letter :: first) :: others := by
    rw [split, if_neg other]
    split
    · exact ⟨[], [], rfl⟩
    · exact ⟨_, _, rfl⟩
  obtain ⟨first, others, parts⟩ := part
  rw [parseIntegers, parts, List.filter_cons_of_pos rfl, ne_eq, mapM_eq_ok_iff]
  intro each
  obtain ⟨number, _, read, -, -⟩ := List.forall₂_cons_left_iff.mp each
  rw [parseInteger, Numeral.read_of_letter marks] at read
  contradiction

/-! ## Words -/

/-- `parse` gives a list exactly for a text with a comma that `parseIntegers` reads. -/
theorem parse_eq_list_iff :
    parse text = .ok (.list values) ↔
      ',' ∈ text ∧ ∃ numbers, parseIntegers text = .ok numbers ∧
        numbers.map Value.integer = values := by
  unfold parse
  split
  · refine ⟨nofun, fun ⟨_, numbers, read, _⟩ => ?_⟩
    exact absurd read (parseIntegers_of_letter (.inl rfl) _ numbers)
  · rw [map_eq_ok_iff]
    refine ⟨nofun, fun ⟨_, numbers, read, _⟩ => ?_⟩
    exact absurd read (parseIntegers_of_letter (.inr rfl) _ numbers)
  · split
    · rename_i comma
      rw [map_eq_ok_iff]
      simp only [Value.list.injEq, List.contains_iff_mem.mp comma, true_and]
    · rename_i no_comma
      rw [map_eq_ok_iff]
      refine ⟨nofun, fun ⟨comma, _⟩ => ?_⟩
      exact absurd (List.contains_iff_mem.mpr comma) no_comma

/-- `parse` is `parseInteger` on a text of the characters of integers. -/
theorem parse_of_textCharacters
    (own : ∀ character ∈ text, character ∈ Numeral.textCharacters) :
    parse text = (parseInteger text).map .integer := by
  have apart (character : Char) (member : character ∈ text) : character ≠ ',' ∧ character ≠ ':' :=
    (Numeral.textCharacters_spec (own character member)).2.2
  unfold parse
  split
  · exact absurd rfl (apart ':' (List.mem_cons_of_mem _ List.mem_cons_self)).2
  · exact absurd rfl (apart ':' (List.mem_cons_of_mem _ List.mem_cons_self)).2
  · exact if_neg fun comma => (apart ',' (List.contains_iff_mem.mp comma)).1 rfl

/-- `parse` reads each text of an integer. -/
theorem parse_of_writes {number : Int} (writes : Numeral.Writes text number) :
    parse text = .ok (.integer number) := by
  rw [parse_of_textCharacters fun _ => writes.mem_textCharacters, parseInteger_of_writes writes]
  rfl

/-- `parse` refuses the decimal text of an integer of more than 4300 digits. -/
theorem parse_of_long {number : Int} (long : DigitLimit.bound ≤ number.natAbs) :
    parse (Numeral.Base.decimal.text number) =
      .error (.longNumeral (Nat.toDigits 10 number.natAbs).length) := by
  have unwritten := DigitLimit.canWrite_eq_false_iff.mpr long
  rw [parse_of_textCharacters fun _ => Numeral.Base.mem_textCharacters_decimal, parseInteger,
    Numeral.read_decimal_text_of_long unwritten]
  rfl

/-- `parse` reads the joined texts of several integers as their list. -/
theorem parse_join {numbers : List Int} (several : 2 ≤ items.length)
    (each : List.Forall₂ Numeral.Writes items numbers) :
    parse (join items) = .ok (.list (numbers.map .integer)) := by
  have some_item := List.ne_nil_of_length_pos (Nat.lt_of_lt_of_le Nat.zero_lt_two several)
  exact parse_eq_list_iff.mpr ⟨mem_join several, numbers, parseIntegers_join some_item each, rfl⟩

/-- `parse` reads padded items as the items. -/
theorem Padded.parse_eq_list_iff (pads : Padded items padded) (several : 2 ≤ items.length) :
    parse (join padded) = .ok (.list values) ↔ parse (join items) = .ok (.list values) := by
  have some_item := List.ne_nil_of_length_pos (Nat.lt_of_lt_of_le Nat.zero_lt_two several)
  have more := Nat.le_trans several pads.length_le
  rw [ValueText.parse_eq_list_iff, ValueText.parse_eq_list_iff, pads.parseIntegers_eq some_item]
  simp only [mem_join several, mem_join more]

/-! ## What is shown -/

/-- The characters of integers with commas between them are their joined decimal texts. -/
theorem toList_intercalate_plain (numbers : List Int) :
    (",".intercalate ((numbers.map Value.integer).map Value.plain)).toList =
      join (numbers.map Numeral.Base.decimal.text) := by
  rw [String.toList_intercalate, List.map_map, List.map_map, join]
  refine congrArg _ (List.map_congr_left fun number _ => ?_)
  exact Numeral.toList_toString number

/-- `parse` reads several integers from their decimal texts with commas between them. -/
theorem parse_intercalate_plain {numbers : List Int} (several : 2 ≤ numbers.length)
    (short : ∀ number ∈ numbers, DigitLimit.canWrite number = true) :
    parse (",".intercalate ((numbers.map Value.integer).map Value.plain)).toList =
      .ok (.list (numbers.map .integer)) := by
  have each : List.Forall₂ Numeral.Writes (numbers.map Numeral.Base.decimal.text) numbers :=
    List.forall₂_map_left_iff.mpr
      (List.forall₂_same.mpr fun number member =>
        Numeral.writes_text .decimal fun _ => short number member)
  rw [toList_intercalate_plain]
  exact parse_join (by rwa [List.length_map]) each

/-- `parse` reads an integer with a comma behind it as a list of one. -/
theorem parse_comma_behind {number : Int} (short : DigitLimit.canWrite number = true) :
    parse (toString number ++ ",").toList = .ok (.list [.integer number]) := by
  have own : (toString number ++ ",").toList = join [Numeral.Base.decimal.text number, []] := by
    rw [String.toList_append, Numeral.toList_toString, join, List.intercalate_cons_cons,
      List.intercalate_singleton, List.append_nil]
    rfl
  have pads : Padded [Numeral.Base.decimal.text number] [Numeral.Base.decimal.text number, []] :=
    .item _ (.empty .nil)
  have read := parseIntegers_join (List.cons_ne_nil _ _)
    (.cons (Numeral.writes_text .decimal fun _ => short) .nil)
  rw [own]
  refine ValueText.parse_eq_list_iff.mpr ⟨mem_join (Nat.le_refl 2), [number], ?_, rfl⟩
  rw [pads.parseIntegers_eq (List.cons_ne_nil _ _), read]

/-- `Value.canWrite` holds of a list of integers when `DigitLimit.canWrite` holds of each. -/
theorem canWrite_list_iff {numbers : List Int} :
    (Value.list (numbers.map .integer)).canWrite = true ↔
      ∀ number ∈ numbers, DigitLimit.canWrite number = true := by
  rw [Value.canWrite, Value.canWriteItems_eq_all, List.all_map, List.all_eq_true]
  rfl

/-- `format` of a list of integers is their decimal texts with commas between them. -/
theorem format_list_of_short {numbers : List Int}
    (short : ∀ number ∈ numbers, DigitLimit.canWrite number = true) :
    format (.list (numbers.map .integer)) =
      .ok (",".intercalate ((numbers.map Value.integer).map Value.plain)) := by
  rw [format, canWrite_list_iff.mpr short]
  rfl

/-- `format` fails on a list with an integer beyond the digit limit. -/
theorem format_list_of_long {numbers : List Int} {number : Int} (member : number ∈ numbers)
    (long : DigitLimit.bound ≤ number.natAbs) :
    format (.list (numbers.map .integer)) = .error .longInteger := by
  have unwritten : (Value.list (numbers.map .integer)).canWrite = false := by
    rw [← Bool.not_eq_true, canWrite_list_iff]
    intro short
    have own := short number member
    rw [DigitLimit.canWrite_eq_false_iff.mpr long] at own
    contradiction
  rw [format, unwritten]
  rfl

/-- `format` of an integer is its decimal text with its hexadecimal digits in parentheses. -/
theorem format_integer_of_short {number : Int} (short : DigitLimit.canWrite number = true) :
    format (.integer number) = .ok (toString number ++ " (0x" ++ hexadecimal number ++ ")") := by
  rw [format, Value.canWrite, short]
  rfl

theorem format_integer_of_long {number : Int} (long : DigitLimit.bound ≤ number.natAbs) :
    format (.integer number) = .error .longInteger := by
  rw [format, Value.canWrite, DigitLimit.canWrite_eq_false_iff.mpr long]
  rfl

/-! ## What is shown of payloads -/

/-- `format` of a payload succeeds when `Payload.canWrite` holds. -/
theorem exists_format_toValue {payload : Payload} (written : payload.canWrite = true) :
    ∃ line, format payload.toValue = .ok line := by
  have shown : ¬ (!payload.toValue.canWrite) = true := by
    rw [Payload.canWrite_toValue, written]
    exact Bool.false_ne_true
  cases payload <;> exact ⟨_, if_neg shown⟩

theorem format_toValue_of_long {payload : Payload} (long : payload.canWrite = false) :
    format payload.toValue = .error .longInteger := by
  unfold format
  apply if_pos
  rw [Payload.canWrite_toValue, long]
  rfl

/-- `formatAll` gives the texts of all payloads when `Payload.canWrite` holds of each. -/
theorem formatAll_of_canWrite {payloads : List Payload}
    (written : ∀ payload ∈ payloads, payload.canWrite = true) :
    ∃ lines, formatAll (payloads.map Payload.toValue) = (lines, none) ∧
      List.Forall₂ (fun payload line => format payload.toValue = .ok line) payloads lines := by
  induction payloads with
  | nil => exact ⟨[], rfl, .nil⟩
  | cons payload payloads ih =>
      obtain ⟨own, others⟩ := List.forall_mem_cons.mp written
      obtain ⟨line, shown⟩ := exists_format_toValue own
      obtain ⟨lines, all, each⟩ := ih others
      refine ⟨line :: lines, ?_, .cons shown each⟩
      rw [List.map_cons, formatAll, shown, all]

/-- `formatAll` ends at the first payload on which `Payload.canWrite` fails. -/
theorem formatAll_of_long {front back : List Payload} {payload : Payload}
    (written : ∀ earlier ∈ front, earlier.canWrite = true) (long : payload.canWrite = false) :
    ∃ lines, formatAll ((front ++ payload :: back).map Payload.toValue) =
        (lines, some .longInteger) ∧
      List.Forall₂ (fun payload line => format payload.toValue = .ok line) front lines := by
  induction front with
  | nil =>
      refine ⟨[], ?_, .nil⟩
      rw [List.nil_append, List.map_cons, formatAll, format_toValue_of_long long]
  | cons first front ih =>
      obtain ⟨own, others⟩ := List.forall_mem_cons.mp written
      obtain ⟨line, shown⟩ := exists_format_toValue own
      obtain ⟨lines, all, each⟩ := ih others
      refine ⟨line :: lines, ?_, .cons shown each⟩
      rw [List.cons_append, List.map_cons, formatAll, shown, all]

/-! ## Words for what is shown -/

/-- The hexadecimal digits of a number behind `0x` are its hexadecimal text. -/
theorem toList_hexadecimal (number : Nat) :
    ("0x" ++ hexadecimal number).toList = Numeral.Base.hexadecimal.text number := by
  have positive : ¬ (number : Int) < 0 := Int.not_lt.mpr (Int.natCast_nonneg number)
  have digits : (String.ofList (Nat.toDigits 16 (number : Int).natAbs)).toList =
      Nat.toDigits Numeral.Base.hexadecimal.radix (number : Int).natAbs := String.toList_ofList
  rw [hexadecimal, Numeral.Base.text, if_neg positive, if_neg positive, String.toList_append,
    String.toList_append, digits]
  rfl

/-- `parse` reads bytes from their digits behind `x:`. -/
theorem parse_ofBytes (bytes : Bytes) :
    parse ("x:" ++ Hex.ofBytes bytes).toList = .ok (.buffer .bytes bytes) := by
  rw [String.toList_append]
  change (parseHex (Hex.ofBytes bytes).toList).map _ = _
  rw [parseHex, Hex.toBytes_ofBytes]
  rfl

/-- `parse` is inverse to `format` on lists of at least two integers, and reads one integer with a
comma behind it as a list of one. The text that `format` gives for a number consists of its decimal
and of its hexadecimal text, and `parse` reads both. It reads every text of an integer, the shortest
one in each base included, and bytes in hexadecimal digits behind their mark, and it ignores empty
items of a list. All decimal texts are of integers below `DigitLimit.bound`: at the bound and
beyond, `format` and `parse` fail. -/
theorem parse_undoes_format :
    (∀ numbers : List Int, 2 ≤ numbers.length →
      ((∀ number ∈ numbers, number.natAbs < DigitLimit.bound) →
        ∃ text, format (.list (numbers.map .integer)) = .ok text ∧
          parse text.toList = .ok (.list (numbers.map .integer))) ∧
      ∀ number ∈ numbers, DigitLimit.bound ≤ number.natAbs →
        format (.list (numbers.map .integer)) = .error .longInteger) ∧
    (∀ number : Int, number.natAbs < DigitLimit.bound →
      parse (toString number ++ ",").toList = .ok (.list [.integer number])) ∧
    (∀ number : Nat,
      (number < DigitLimit.bound → ∃ decimal digits : String,
        format (.integer number) = .ok (decimal ++ " (0x" ++ digits ++ ")") ∧
          parse decimal.toList = .ok (.integer number) ∧
          parse ("0x" ++ digits).toList = .ok (.integer number)) ∧
      (DigitLimit.bound ≤ number → format (.integer number) = .error .longInteger)) ∧
    (∀ (base : Numeral.Base) (number : Int),
      (base = .decimal → number.natAbs < DigitLimit.bound) →
        parse (base.text number) = .ok (.integer number)) ∧
    (∀ number : Int, DigitLimit.bound ≤ number.natAbs →
      parse (Numeral.Base.decimal.text number) =
        .error (.longNumeral (Nat.toDigits 10 number.natAbs).length)) ∧
    (∀ (text : List Char) (number : Int), Numeral.Writes text number →
      parse text = .ok (.integer number)) ∧
    (∀ bytes : Bytes, parse ("x:" ++ Hex.ofBytes bytes).toList = .ok (.buffer .bytes bytes)) ∧
    ∀ items padded : List (List Char), Padded items padded → 2 ≤ items.length →
      ∀ values, parse (join padded) = .ok (.list values) ↔
        parse (join items) = .ok (.list values) := by
  have shortest (base : Numeral.Base) (number : Int)
      (short : base = .decimal → number.natAbs < DigitLimit.bound) :
      parse (base.text number) = .ok (.integer number) :=
    parse_of_writes (Numeral.writes_text base fun decimal =>
      DigitLimit.canWrite_iff.mpr (short decimal))
  refine ⟨fun numbers several => ⟨fun short => ?_, fun number => format_list_of_long⟩,
    fun number short => parse_comma_behind (DigitLimit.canWrite_iff.mpr short),
    fun number => ⟨fun short => ?_, fun long => format_integer_of_long long⟩, shortest,
    fun number => parse_of_long, fun _ _ => parse_of_writes, parse_ofBytes,
    fun _ _ pads several _ => pads.parse_eq_list_iff several⟩
  · have written (number : Int) (member : number ∈ numbers) : DigitLimit.canWrite number = true :=
      DigitLimit.canWrite_iff.mpr (short number member)
    exact ⟨_, format_list_of_short written, parse_intercalate_plain several written⟩
  · refine ⟨_, _, format_integer_of_short (DigitLimit.canWrite_natCast_iff.mpr short), ?_, ?_⟩
    · rw [Numeral.toList_toString]
      exact shortest .decimal number fun _ => short
    · rw [toList_hexadecimal]
      exact shortest .hexadecimal number nofun

/-- A list with a negative number, a zero in front of letters of both cases, and commas around the
items of a list. -/
theorem parse_undoes_format_mixed :
    parse "-1,300".toList = .ok (.list [.integer (-1), .integer 300]) ∧
      parse "-0x0fF".toList = .ok (.integer (-255)) ∧
      parse ",-1,,300,".toList = .ok (.list [.integer (-1), .integer 300]) := by
  obtain ⟨lists, -, -, -, -, texts, -, pads⟩ := parse_undoes_format
  have short : ∀ number ∈ [(-1 : Int), 300], number.natAbs < DigitLimit.bound := by
    have below {number : Int} (small : number.natAbs < 10 ^ (3 : Nat)) :
        number.natAbs < DigitLimit.bound := DigitLimit.lt_bound_of_lt_pow small (by decide)
    exact List.forall_mem_cons.mpr ⟨below (by decide), List.forall_mem_singleton.mpr
      (below (by decide))⟩
  have shown : format (.list [.integer (-1), .integer 300]) = .ok "-1,300" :=
    (@format_list_of_short [-1, 300] fun number member =>
      DigitLimit.canWrite_iff.mpr (short number member)).trans
        (congrArg Except.ok (by decide +kernel))
  obtain ⟨text, own, list⟩ := (lists [-1, 300] (by decide)).1 short
  obtain rfl : "-1,300" = text := Except.ok.inj (shown.symm.trans own)
  have spells : Numeral.Spells 16 ['0', 'f', 'F'] 255 :=
    .append (.append (.single (by decide) (.lower : Numeral.ShowsDigit 0 _)) (by decide)
      (.lower : Numeral.ShowsDigit 15 _)) (by decide) (.upper : Numeral.ShowsDigit 15 _)
  have padded : Padded [['-', '1'], ['3', '0', '0']] [[], ['-', '1'], [], ['3', '0', '0'], []] :=
    .empty (.item _ (.empty (.item _ (.empty .nil))))
  exact ⟨list, texts _ _ (.negative .hexadecimal ⟨spells, nofun, nofun⟩),
    (pads _ _ padded (by decide) _).mpr list⟩

/-- The least number of 4301 digits: `format` fails on a list with it, and `parse` on its decimal
text. -/
theorem parse_undoes_format_long :
    format (.list [.integer DigitLimit.bound, .integer 0]) = .error .longInteger ∧
      Refusal.longInteger.family = .wrongValue ∧
      parse (Numeral.Base.decimal.text DigitLimit.bound) = .error (.longNumeral 4301) ∧
      (Refusal.longNumeral 4301).family = .wrongValue := by
  have length : (Nat.toDigits 10 DigitLimit.bound).length = 4301 := by decide +kernel
  have long : DigitLimit.bound ≤ (DigitLimit.bound : Int).natAbs := Nat.le_refl _
  have unread := parse_of_long long
  rw [Int.natAbs_natCast, length] at unread
  exact ⟨@format_list_of_long [DigitLimit.bound, 0] _ List.mem_cons_self long, rfl, unread, rfl⟩

end BitRecord.ValueText
