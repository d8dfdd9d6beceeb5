/-
# Which directives a format can have

A list of directives is that of a format exactly when it is `Printable`: its
fields break no rule and their quantities are within the digit limit, a literal
has bytes, two literals never meet, for they would be one, and behind a field
without a fill there is no literal that starts with the character of one, for it
would belong to the field. `Format.print` writes every such list as a text that
`Format.compile` reads as the list.
-/

import BitRecord.Proofs.Format.Seam
import Mathlib.Data.List.Chain

namespace BitRecord

/-- The spelling of a field in full: with its quantity always, and with the fill behind the
letter. -/
def Field.spelling (field : Field) : Spelling where
  flags := ⟨field.shape = .array, Nat.toDigits 10 field.count, field.aligned, field.order, none⟩
  kind := field.kind
  lateFill := field.fill

namespace Directive

/-- The tokens of the text of a directive. -/
def tokens : Directive → List Token
  | field f => [.field f.spelling]
  | literal data => data.map fun byte => .literal (Char.ofNat byte.toNat)

/-- The text of a directive: the escape character of a literal is written twice. -/
def text (directive : Directive) : List Char := directive.tokens.flatMap Token.text

/-- Whether a directive can be right in front of another one: two literals cannot, nor can a field
without a fill be in front of a literal that starts with the character of one. -/
def MayPrecede : Directive → Directive → Prop
  | literal _, literal _ => False
  | field f, literal data => f.fill = none → ∀ byte, data.head? = some byte →
      byte ∉ [Piece.byte '0', Piece.byte '1', Piece.byte 'r']
  | _, field _ => True

/-- The conditions for directives to be those of a format. -/
structure Printable (directives : List Directive) : Prop where
  /-- Every field breaks no rule. -/
  valid : ∀ directive ∈ directives, directive.Valid
  /-- No quantity has more digits than `DigitLimit.digits`. -/
  readable : ∀ f, field f ∈ directives → f.count < DigitLimit.bound
  /-- No literal is without bytes. -/
  filled : ∀ data, literal data ∈ directives → data ≠ []
  /-- Adjacent directives are related by `MayPrecede`. -/
  apart : directives.IsChain MayPrecede

end Directive

/-- The text of directives. -/
def Format.print (directives : List Directive) : String :=
  String.ofList (directives.flatMap Directive.text)

/-! ## Characters -/

/-- Different characters that fit in a byte have different bytes. -/
theorem Piece.byte_injective {first second : Char} (first_small : first.toNat < 256)
    (second_small : second.toNat < 256) (same : byte first = byte second) : first = second := by
  have numbers := congrArg UInt8.toNat same
  rw [byte, byte, UInt8.toNat_ofNat', UInt8.toNat_ofNat'] at numbers
  apply Char.toNat_inj.mp
  omega

/-- The number of the character of a byte is the byte. -/
theorem toNat_character (byte : UInt8) : (Char.ofNat byte.toNat).toNat = byte.toNat := by
  have valid : byte.toNat.isValidChar := .inl (Nat.lt_trans byte.toNat_lt (by decide))
  rw [Char.ofNat, dif_pos valid]
  rfl

theorem Piece.byte_character (byte : UInt8) : Piece.byte (Char.ofNat byte.toNat) = byte := by
  rw [Piece.byte, toNat_character, UInt8.ofNat_toNat]

theorem Token.sound_character (byte : UInt8) : (Token.literal (Char.ofNat byte.toNat)).Sound := by
  rw [Sound, toNat_character]
  exact byte.toNat_lt

/-- A character that fits in a byte is that of a fill exactly when its byte is. -/
theorem Fill.ofFlag?_eq_none_iff_byte {character : Char} (small : character.toNat < 256) :
    Fill.ofFlag? character = none ↔
      Piece.byte character ∉ [Piece.byte '0', Piece.byte '1', Piece.byte 'r'] := by
  have told {other : Char} (other_small : other.toNat < 256) :
      Piece.byte character = Piece.byte other ↔ character = other :=
    ⟨Piece.byte_injective small other_small, congrArg Piece.byte⟩
  rw [Fill.ofFlag?_eq_none_iff, List.mem_cons, List.mem_cons, List.mem_singleton,
    told (by decide), told (by decide), told (by decide), not_or, not_or]

/-- A literal character is what its text starts with, also when it is written twice. -/
theorem Token.head?_text_literal (character : Char) (text : List Char) :
    ((Token.literal character).text ++ text).head? = some character := by
  rw [Token.text, Piece.literalText]
  split
  · rename_i escape
    rw [escape]
    rfl
  · rfl

/-- The digits of `Nat.toDigits` are quantity digits. -/
theorem isQuantityDigit_of_mem {digit : Char} {number : Nat}
    (member : digit ∈ Nat.toDigits 10 number) :
    isQuantityDigit digit = true := by
  have digit := Nat.isDigit_of_mem_toDigits (by decide) (by decide) member
  exact digit

/-- `quantityOf` is inverse to `Nat.toDigits`. -/
theorem quantityOf_toDigits (number : Nat) : quantityOf (Nat.toDigits 10 number) = number :=
  Nat.ofDigitChars_toDigits (by decide) (by decide)

/-- `quantityOf` of a number of digits is below ten to that number. -/
theorem quantityOf_lt {digits : List Char}
    (own : ∀ digit ∈ digits, isQuantityDigit digit = true) :
    quantityOf digits < 10 ^ digits.length := by
  have step (number : Nat) : digits.foldl
      (fun number digit => 10 * number + (digit.toNat - '0'.toNat)) number <
        (number + 1) * 10 ^ digits.length := by
    induction digits generalizing number with
    | nil => simp
    | cons digit digits ih =>
        obtain ⟨first, others⟩ := List.forall_mem_cons.mp own
        have nine : digit.toNat - '0'.toNat ≤ 9 := by
          have above : digit ≤ '9' := of_decide_eq_true (Bool.and_eq_true_iff.mp first).2
          exact Nat.sub_le_sub_right (show digit.toNat ≤ '9'.toNat from above) '0'.toNat
        rw [List.foldl_cons, List.length_cons]
        calc digits.foldl _ (10 * number + (digit.toNat - '0'.toNat))
            < (10 * number + (digit.toNat - '0'.toNat) + 1) * 10 ^ digits.length := ih others _
          _ ≤ ((number + 1) * 10) * 10 ^ digits.length := Nat.mul_le_mul_right _ (by omega)
          _ = (number + 1) * 10 ^ (digits.length + 1) := by rw [Nat.mul_assoc, Nat.pow_succ']
  have whole := step 0
  rwa [Nat.zero_add, Nat.one_mul] at whole

/-- The quantity of a readable spelling is below `DigitLimit.bound`. -/
theorem Spelling.count_lt {spelling : Spelling} (own : spelling.flags.AllDigits)
    (readable : spelling.flags.digits.length ≤ DigitLimit.digits) :
    spelling.field.count < DigitLimit.bound := by
  rw [Spelling.field]
  split
  · exact DigitLimit.one_lt_bound
  · exact DigitLimit.lt_bound_of_lt_pow (quantityOf_lt own) readable

/-! ## Writing -/

namespace Field

variable {field : Field}

/-- The spelling of a field has the field. -/
theorem field_spelling (field : Field) : field.spelling.field = field := by
  obtain ⟨kind, count, order, aligned, fill, shape⟩ := field
  have some_digits : (Nat.toDigits 10 count).isEmpty = false :=
    List.isEmpty_eq_false_iff.mpr Nat.toDigits_ne_nil
  cases shape <;> simp [spelling, Spelling.field, some_digits, quantityOf_toDigits]

/-- The spelling of a field is readable exactly when its quantity is below `DigitLimit.bound`. -/
theorem length_digits_spelling_le_iff :
    field.spelling.flags.digits.length ≤ DigitLimit.digits ↔ field.count < DigitLimit.bound := by
  rw [DigitLimit.bound_eq]
  exact Nat.length_toDigits_le_iff (by decide) (by decide)

/-- The spelling of a field ends where no fill follows that it could take. -/
theorem spelling_endsBefore {text : List Char}
    (own_fill : field.fill = none → ∀ next, text.head? = some next → Fill.ofFlag? next = none) :
    field.spelling.EndsBefore text where
  all_digits := by
    let behind := markText alignFlag field.aligned ++ (field.order.flag ++ [])
    have whole : field.spelling.flags.text = markText pointerFlag field.spelling.flags.pointer
        ++ (Nat.toDigits 10 field.count ++ behind) := by
      simp [Field.spelling, Flags.text, behind]
    have no_digits : behind.takeWhile isQuantityDigit = [] := by
      unfold behind
      cases field.aligned with
      | true => rfl
      | false => cases field.order <;> rfl
    rw [Spelling.takeWhile_text, whole, List.drop_left,
      List.takeWhile_append_of_pos fun _ => isQuantityDigit_of_mem, no_digits, List.append_nil]
    rfl
  one_fill := .inl rfl
  own_fill _ := own_fill

end Field

namespace Directive

variable {directives : List Directive}

/-- `Printable` of a list: the first directive meets the conditions, it may precede the second one,
and the others are printable. -/
theorem printable_cons {directive : Directive} :
    Printable (directive :: directives) ↔
      directive.Valid ∧ (∀ f, directive = field f → f.count < DigitLimit.bound) ∧
        (∀ data, directive = literal data → data ≠ []) ∧
        (∀ next, directives.head? = some next → directive.MayPrecede next) ∧
        Printable directives := by
  apply Iff.intro
  · intro printable
    obtain ⟨valid, readable, filled, apart⟩ := printable
    obtain ⟨first_valid, others_valid⟩ := List.forall_mem_cons.mp valid
    obtain ⟨first_apart, others_apart⟩ := List.isChain_cons.mp apart
    exact ⟨first_valid, fun f same => readable f (same ▸ List.mem_cons_self),
      fun data same => filled data (same ▸ List.mem_cons_self), first_apart,
      others_valid, fun f member => readable f (List.mem_cons_of_mem _ member),
      fun data member => filled data (List.mem_cons_of_mem _ member), others_apart⟩
  · intro parts
    obtain ⟨first_valid, first_readable, first_filled, first_apart,
      valid, readable, filled, apart⟩ := parts
    refine ⟨List.forall_mem_cons.mpr ⟨first_valid, valid⟩, fun f member => ?_,
      fun data member => ?_, List.isChain_cons.mpr ⟨first_apart, apart⟩⟩
    · rcases List.mem_cons.mp member with same | later
      · exact first_readable f same.symm
      · exact readable f later
    · rcases List.mem_cons.mp member with same | later
      · exact first_filled data same.symm
      · exact filled data later

/-- Only a field may follow a literal. -/
theorem mayPrecede_literal_iff {data : Bytes} {next : Directive} :
    (literal data).MayPrecede next ↔ ∃ f, next = field f := by
  cases next with
  | literal more =>
      apply iff_of_false
      · exact not_false
      · intro is_field
        obtain ⟨f, same⟩ := is_field
        contradiction
  | field f => exact iff_of_true trivial ⟨f, rfl⟩

theorem literal_filled (byte : UInt8) (data : Bytes) :
    ∀ other, literal (byte :: data) = literal other → other ≠ [] := by
  intro other same
  rw [← literal.inj same]
  exact List.cons_ne_nil byte data

theorem field_filled (f : Field) : ∀ data, field f = literal data → data ≠ [] := by
  intro data same
  contradiction

theorem literal_short (data : Bytes) :
    ∀ f, literal data = field f → f.count < DigitLimit.bound := by
  intro f same
  contradiction

theorem printable_nil : Printable [] where
  valid := List.forall_mem_nil _
  readable _ member := absurd member List.not_mem_nil
  filled _ member := absurd member List.not_mem_nil
  apart := .nil

/-- The text of a directive that may follow a field without a fill starts with no fill. -/
theorem ofFlag?_of_mayPrecede {field : Field} (no_fill : field.fill = none) {next : Directive}
    (apart : (Directive.field field).MayPrecede next)
    (filled : ∀ data, next = literal data → data ≠ []) {rest : List Char} {character : Char}
    (head : (next.text ++ rest).head? = some character) : Fill.ofFlag? character = none := by
  cases next with
  | field other =>
      obtain rfl : escapeCharacter = character := Option.some.inj head
      rfl
  | literal data =>
      cases data with
      | nil => exact absurd rfl (filled [] rfl)
      | cons byte data =>
          have first : (literal (byte :: data)).text ++ rest =
              (Token.literal (Char.ofNat byte.toNat)).text ++ ((literal data).text ++ rest) := by
            rw [text, tokens, List.map_cons, List.flatMap_cons, List.append_assoc]
            rfl
          rw [first, Token.head?_text_literal] at head
          obtain rfl := Option.some.inj head
          rw [Fill.ofFlag?_eq_none_iff_byte (Token.sound_character byte), Piece.byte_character]
          exact apart no_fill byte rfl

/-- The text of printable directives has their tokens as a reading. -/
theorem Printable.reads (printable : Printable directives) :
    Reads (directives.flatMap text) (directives.flatMap tokens) := by
  induction directives with
  | nil => exact .nil
  | cons directive directives ih =>
      obtain ⟨_, _, _, apart, others⟩ := printable_cons.mp printable
      rw [List.flatMap_cons, List.flatMap_cons]
      cases directive with
      | literal data =>
          have characters := (ih others).literals (data.map fun byte => Char.ofNat byte.toNat)
          rw [List.map_map] at characters
          have same : (literal data).text =
              (data.map fun byte => Char.ofNat byte.toNat).flatMap Piece.literalText := by
            rw [text, tokens, List.flatMap_map, List.flatMap_map]
            rfl
          rw [same]
          exact characters
      | field field =>
          have ends : field.spelling.EndsBefore (directives.flatMap text) := by
            refine Field.spelling_endsBefore fun no_fill character head => ?_
            cases directives with
            | nil => contradiction
            | cons next directives =>
                obtain ⟨_, _, filled, _, _⟩ := printable_cons.mp others
                rw [List.flatMap_cons] at head
                exact ofFlag?_of_mayPrecede no_fill (apart next rfl) filled head
          have whole : (Directive.field field).text = (Token.field field.spelling).text :=
            List.flatMap_singleton _ _
          rw [whole]
          exact .field ends (ih others)

/-- The characters of a literal are one item. -/
theorem items_literal {data : Bytes} (filled : data ≠ []) (position : Nat) :
    Token.items position (literal data).tokens = [⟨position, .literal data⟩] := by
  induction data generalizing position with
  | nil => contradiction
  | cons byte data ih =>
      rw [tokens, List.map_cons, Token.items, Piece.byte_character]
      cases data with
      | nil => rfl
      | cons next data =>
          have later := ih (List.cons_ne_nil next data) (position
            + (Token.literal (Char.ofNat byte.toNat)).text.length)
          rw [tokens] at later
          rw [later]
          rfl

/-- The items of the tokens of directives are the directives. -/
theorem Printable.map_directive_items (printable : Printable directives) (position : Nat) :
    (Token.items position (directives.flatMap tokens)).map Item.directive = directives := by
  induction directives generalizing position with
  | nil => rfl
  | cons directive directives ih =>
      obtain ⟨_, _, filled, apart, others⟩ := printable_cons.mp printable
      rw [List.flatMap_cons, Token.items_append]
      generalize position + (directive.tokens.flatMap Token.text).length = place
      have later := ih others place
      cases directive with
      | field field =>
          rw [tokens, Token.items, Item.join_field, List.map_cons, Token.items, Item.join, later,
            Field.field_spelling]
      | literal data =>
          rw [items_literal (filled data rfl)]
          cases rest : Token.items place (directives.flatMap tokens) with
          | nil =>
              rw [rest] at later
              rw [← later]
              rfl
          | cons next items =>
              obtain ⟨there, second⟩ := next
              rw [rest] at later
              cases second with
              | literal more =>
                  rw [← later] at apart
                  exact absurd (apart _ rfl) not_false
              | field field =>
                  rw [Item.join_field_behind, ← later]
                  rfl

/-- The tokens of printable directives are sound. -/
theorem Printable.sound (printable : Printable directives) :
    ∀ token ∈ directives.flatMap tokens, token.Sound := by
  intro token member
  obtain ⟨directive, listed, own⟩ := List.mem_flatMap.mp member
  have valid := printable.valid directive listed
  cases directive with
  | field field =>
      obtain rfl := List.mem_singleton.mp own
      rw [Token.Sound, Field.length_digits_spelling_le_iff, Field.field_spelling]
      exact ⟨printable.readable field listed, valid⟩
  | literal data =>
      obtain ⟨byte, _, rfl⟩ := List.mem_map.mp own
      exact Token.sound_character byte

end Directive

/-! ## Reading -/

namespace Token

/-- `joinLiteral` extends the literal in front of the items, or adds one in front of a field. -/
theorem joinLiteral_cases (position : Nat) (byte : UInt8) (items : List Item) :
    (∃ place data others, items = ⟨place, .literal data⟩ :: others ∧
      joinLiteral position byte items = ⟨position, .literal (byte :: data)⟩ :: others) ∨
    ((∀ item, items.head? = some item → ∃ field, item.directive = .field field) ∧
      joinLiteral position byte items = ⟨position, .literal [byte]⟩ :: items) := by
  cases items with
  | nil =>
      right
      refine ⟨fun item head => ?_, rfl⟩
      contradiction
  | cons item items =>
      obtain ⟨place, directive⟩ := item
      cases directive with
      | literal data =>
          left
          exact ⟨place, data, items, rfl, rfl⟩
      | field field =>
          right
          refine ⟨fun item head => ?_, rfl⟩
          obtain rfl := Option.some.inj head
          exact ⟨field, rfl⟩

/-- Items that start with a literal are those of tokens that start with its first byte. -/
theorem exists_of_items_literal {position : Nat} {tokens : List Token} {byte : UInt8}
    {data : Bytes}
    (starts : ((items position tokens).map Item.directive).head? =
      some (.literal (byte :: data))) :
    ∃ character others, tokens = .literal character :: others ∧ Piece.byte character = byte := by
  cases tokens with
  | nil => contradiction
  | cons token others =>
      cases token with
      | field spelling => cases Option.some.inj starts
      | literal character =>
          refine ⟨character, others, rfl, ?_⟩
          rw [items] at starts
          rcases joinLiteral_cases position (Piece.byte character)
              (items (position + (literal character).text.length) others) with
            ⟨_, _, _, _, joined⟩ | ⟨_, joined⟩
          · rw [joined] at starts
            exact (List.cons.inj (Directive.literal.inj (Option.some.inj starts))).1
          · rw [joined] at starts
            exact (List.cons.inj (Directive.literal.inj (Option.some.inj starts))).1

end Token

/-- The items of a reading of sound tokens are printable. -/
theorem Reads.printable {text : List Char} {tokens : List Token} (reads : Reads text tokens)
    (sound : ∀ token ∈ tokens, token.Sound) (position : Nat) :
    Directive.Printable ((Token.items position tokens).map Item.directive) := by
  induction reads generalizing position with
  | nil =>
      exact Directive.printable_nil
  | @literal character text tokens rest ih =>
      have others := ih (List.forall_mem_cons.mp sound).2
        (position + (Token.literal character).text.length)
      rw [Token.items]
      rcases Token.joinLiteral_cases position (Piece.byte character)
          (Token.items (position + (Token.literal character).text.length) tokens) with
        ⟨place, data, items, starts, joined⟩ | ⟨fields, joined⟩
      · rw [joined]
        rw [starts] at others
        obtain ⟨_, _, _, apart, items_printable⟩ := Directive.printable_cons.mp others
        exact Directive.printable_cons.mpr ⟨trivial, Directive.literal_short _,
          Directive.literal_filled _ data, fun next head => Directive.mayPrecede_literal_iff.mpr
            (Directive.mayPrecede_literal_iff.mp (apart next head)), items_printable⟩
      · rw [joined]
        refine Directive.printable_cons.mpr ⟨trivial, Directive.literal_short _,
          Directive.literal_filled _ [],
          fun next head => Directive.mayPrecede_literal_iff.mpr ?_, others⟩
        rw [List.head?_map, Option.map_eq_some_iff] at head
        obtain ⟨item, first, rfl⟩ := head
        exact fields item first
  | @field spelling text tokens ends rest ih =>
      obtain ⟨⟨readable, valid⟩, others_sound⟩ := List.forall_mem_cons.mp sound
      have others := ih others_sound (position + (Token.field spelling).text.length)
      rw [Token.items, List.map_cons]
      refine Directive.printable_cons.mpr
        ⟨valid, fun f same => ?_, Directive.field_filled _, fun next head => ?_, others⟩
      · obtain rfl := Directive.field.inj same
        exact Spelling.count_lt ends.allDigits readable
      cases next with
      | field other => trivial
      | literal data =>
          intro no_fill byte first
          obtain ⟨data, rfl⟩ := List.head?_eq_some_iff.mp first
          obtain ⟨character, behind, rfl, rfl⟩ := Token.exists_of_items_literal head
          -- A fill that the literal starts with would have been read as that of the field.
          have text_head : text.head? = some character := by
            rw [← rest.flatMap_text, List.flatMap_cons, Token.head?_text_literal]
          obtain ⟨early, late⟩ := spelling.fill_eq_none_iff.mp no_fill
          exact (Fill.ofFlag?_eq_none_iff_byte (List.forall_mem_cons.mp others_sound).1).mp
            (ends.own_fill early late character text_head)

/-- The directives of an accepted format are printable. -/
theorem Format.printable_of_compile {given : Value} {format : Format}
    (compiled : (compile given).outcome = .ok format) :
    Directive.Printable format.directives := by
  obtain ⟨text, tokens, _, reads, sound, rfl⟩ := exists_reads compiled
  exact reads.printable sound 0

/-- Printable directives are those of the format with their text. -/
theorem Directive.Printable.exists_format {directives : List Directive}
    (printable : Printable directives) :
    ∃ format, (Format.compile (.text (Format.print directives))).outcome = .ok format ∧
      format.directives = directives := by
  have reads := printable.reads
  rw [← @String.toList_ofList (directives.flatMap text)] at reads
  exact ⟨_, reads.compile printable.sound, printable.map_directive_items 0⟩

/-- A valid field with a quantity below `DigitLimit.bound` is that of a format of its own. -/
theorem Field.exists_format {field : Field} (valid : field.Valid)
    (readable : field.count < DigitLimit.bound) :
    ∃ format, (Format.compile (.text (Format.print [.field field]))).outcome = .ok format ∧
      format.directives = [.field field] := by
  apply Directive.Printable.exists_format
  refine ⟨List.forall_mem_singleton.mpr valid, fun f member => ?_, fun data member => ?_,
    .singleton _⟩
  · obtain rfl := Directive.field.inj (List.mem_singleton.mp member)
    exact readable
  · exact Directive.field_filled field data (List.mem_singleton.mp member).symm

namespace Format

/-- Directives are those of a format exactly when they are `Printable`: the fields break no rule and
have quantities of at most 4300 digits, no literal is empty or next to another one, and no literal
starts with a fill behind a field without one. `compile` of their text, each field in full and each
escape character of a literal doubled, then gives these directives. -/
theorem printable_iff (directives : List Directive) :
    ((∃ given format, (compile given).outcome = .ok format ∧ format.directives = directives) ↔
      Directive.Printable directives) ∧
    (Directive.Printable directives → ∃ format,
      (compile (.text (print directives))).outcome = .ok format ∧
        format.directives = directives) := by
  have written (printable : Directive.Printable directives) : ∃ format,
      (compile (.text (print directives))).outcome = .ok format ∧
        format.directives = directives := by
    have reads := printable.reads
    rw [← @String.toList_ofList (directives.flatMap Directive.text)] at reads
    exact ⟨_, reads.compile printable.sound, printable.map_directive_items 0⟩
  refine ⟨⟨fun accepted => ?_, fun printable => ?_⟩, written⟩
  · obtain ⟨given, format, compiled, rfl⟩ := accepted
    obtain ⟨text, tokens, _, reads, sound, rfl⟩ := exists_reads compiled
    exact reads.printable sound 0
  · obtain ⟨format, compiled, same⟩ := written printable
    exact ⟨_, format, compiled, same⟩

/-- A literal behind a filled field can start with the character of a fill, and its escape character
is doubled. -/
theorem printable_iff_escape :
    ∃ format, (compile (.text "%3ali11%%%p12y")).outcome = .ok format ∧
      format.directives = [.field ⟨.bit, 3, .little, true, some .ones, .scalar⟩,
        .literal [49, 37], .field ⟨.byte, 12, .native, false, none, .array⟩] := by
  have bits : (Directive.field ⟨.bit, 3, .little, true, some .ones, .scalar⟩).Valid :=
    (Field.fault?_eq_none_iff _).mp rfl
  have bytes : (Directive.field ⟨.byte, 12, .native, false, none, .array⟩).Valid :=
    (Field.fault?_eq_none_iff _).mp rfl
  have apart : List.IsChain Directive.MayPrecede
      [.field ⟨.bit, 3, .little, true, some .ones, .scalar⟩, .literal [49, 37],
        .field ⟨.byte, 12, .native, false, none, .array⟩] :=
    .cons_cons (fun no_fill => nomatch no_fill) (.cons_cons trivial (.singleton _))
  have text : print [.field ⟨.bit, 3, .little, true, some .ones, .scalar⟩, .literal [49, 37],
      .field ⟨.byte, 12, .native, false, none, .array⟩] = "%3ali11%%%p12y" := by
    decide +kernel
  rw [← text]
  refine (printable_iff _).2 ⟨?_, ?_, ?_, apart⟩
  · exact List.forall_mem_cons.mpr
      ⟨bits, List.forall_mem_cons.mpr ⟨trivial, List.forall_mem_singleton.mpr bytes⟩⟩
  · have short {count : Nat} (below : count < 10 ^ (2 : Nat)) : count < DigitLimit.bound :=
      DigitLimit.lt_bound_of_lt_pow below (by decide)
    simp only [List.mem_cons, List.not_mem_nil, or_false, Directive.field.injEq, reduceCtorEq,
      false_or]
    rintro f (rfl | rfl)
    · exact short (by decide)
    · exact short (by decide)
  · simp

/-- `compile` refuses the text of a field whose quantity has more digits than
`DigitLimit.digits`. -/
theorem compile_print_of_long {field : Field} (long : DigitLimit.bound ≤ field.count) :
    (compile (.text (print [.field field]))).outcome =
      .error ⟨.longQuantity (Nat.toDigits 10 field.count).length, none⟩ := by
  have ends : field.spelling.EndsBefore [] := Field.spelling_endsBefore fun _ _ => nofun
  have reads : Reads (print [.field field]).toList [.field field.spelling] := by
    have whole : [Directive.field field].flatMap Directive.text =
        (Token.field field.spelling).text ++ [] := by
      simp [Directive.text, Directive.tokens]
    rw [print, String.toList_ofList, whole]
    exact .field ends .nil
  apply reads.compile_long
  rw [← Nat.not_le, Field.length_digits_spelling_le_iff, Nat.not_lt]
  exact long

/-- A field of `DigitLimit.bound` bits meets all other conditions and is that of no format:
`compile` refuses its text with `longQuantity`. -/
theorem printable_iff_unreadable :
    let directives : List Directive :=
      [.field ⟨.bit, DigitLimit.bound, .native, false, none, .scalar⟩]
    (∀ directive ∈ directives, directive.Valid) ∧
      (∀ data, .literal data ∈ directives → data ≠ []) ∧
      directives.IsChain Directive.MayPrecede ∧
      (compile (.text (print directives))).outcome = .error ⟨.longQuantity 4301, none⟩ ∧
      ¬ ∃ given format, (compile given).outcome = .ok format ∧ format.directives = directives := by
  intro directives
  have pos : 0 < DigitLimit.bound := DigitLimit.bound_eq ▸ Nat.pow_pos (by decide)
  have valid : (Directive.field ⟨.bit, DigitLimit.bound, .native, false, none, .scalar⟩).Valid :=
    ⟨pos, nofun, nofun, nofun⟩
  have length : (Nat.toDigits 10 DigitLimit.bound).length = 4301 := by decide +kernel
  refine ⟨List.forall_mem_singleton.mpr valid, by simp [directives], .singleton _, ?_, ?_⟩
  · rw [compile_print_of_long (Nat.le_refl DigitLimit.bound), length]
  · intro accepted
    obtain ⟨given, format, compiled, same⟩ := accepted
    have printable := same ▸ printable_of_compile compiled
    exact Nat.lt_irrefl _ (printable.readable _ List.mem_cons_self)

end Format

end BitRecord
