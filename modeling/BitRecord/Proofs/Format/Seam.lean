/-
# Texts behind each other

The digits and the flags of a field end at its letter at the latest, so only the
character behind the letter can belong to the field or not: it does when it is a
fill and the field has none yet. The readings of two texts behind each other
therefore make a reading of both, unless the first text ends in a field without a
fill and the second one starts with one. The items are joined at the seam, for
the literal characters on both sides of it are one literal.
-/

import BitRecord.Proofs.Format.Grammar

namespace BitRecord

namespace Item

/-- An item further behind in the text. -/
def shift (count : Nat) (item : Item) : Item := ⟨item.position + count, item.directive⟩

/-- Items behind others. Literals that meet become one, at the position of the first. -/
def join : List Item → List Item → List Item
  | [], others => others
  | [⟨position, .literal data⟩], ⟨_, .literal more⟩ :: others =>
      ⟨position, .literal (data ++ more)⟩ :: others
  | item :: items, others => item :: join items others

theorem join_field (position : Nat) (field : Field) (items others : List Item) :
    join (⟨position, .field field⟩ :: items) others =
      ⟨position, .field field⟩ :: join items others := by
  cases items with
  | nil => rfl
  | cons item items => rfl

theorem join_literal_of_cons (position : Nat) (data : Bytes) (item : Item)
    (items others : List Item) :
    join (⟨position, .literal data⟩ :: item :: items) others =
      ⟨position, .literal data⟩ :: join (item :: items) others := by
  cases others with
  | nil => rfl
  | cons other others => rfl

/-- `join` leaves a field at the seam as it is. -/
theorem join_field_behind (items : List Item) (position : Nat) (field : Field)
    (others : List Item) :
    join items (⟨position, .field field⟩ :: others) =
      items ++ ⟨position, .field field⟩ :: others := by
  induction items with
  | nil => rfl
  | cons item items ih =>
      obtain ⟨place, directive⟩ := item
      cases directive with
      | field first => rw [join_field, ih, List.cons_append]
      | literal data =>
          cases items with
          | nil => rfl
          | cons next items =>
              rw [join_literal_of_cons, ih]
              rfl

/-- `joinLiteral` commutes with `join`. -/
theorem join_joinLiteral (position : Nat) (byte : UInt8) (items others : List Item) :
    join (Token.joinLiteral position byte items) others =
      Token.joinLiteral position byte (join items others) := by
  cases items with
  | nil =>
      cases others with
      | nil => rfl
      | cons other others =>
          obtain ⟨place, directive⟩ := other
          cases directive with
          | field field => rfl
          | literal data => rfl
  | cons item items =>
      obtain ⟨place, directive⟩ := item
      cases directive with
      | field field =>
          rw [join_field]
          change join (⟨position, .literal [byte]⟩ :: ⟨place, .field field⟩ :: items) others = _
          rw [join_literal_of_cons, join_field]
          rfl
      | literal data =>
          change join (⟨position, .literal (byte :: data)⟩ :: items) others = _
          cases items with
          | cons next items =>
              rw [join_literal_of_cons, join_literal_of_cons]
              rfl
          | nil =>
              cases others with
              | nil => rfl
              | cons other others =>
                  obtain ⟨_, directive⟩ := other
                  cases directive with
                  | field field => rfl
                  | literal more => rfl

end Item

namespace Token

/-- `joinLiteral` commutes with `shift`. -/
theorem map_shift_joinLiteral (count position : Nat) (byte : UInt8) (items : List Item) :
    (joinLiteral position byte items).map (Item.shift count) =
      joinLiteral (position + count) byte (items.map (Item.shift count)) := by
  cases items with
  | nil => rfl
  | cons item items =>
      obtain ⟨place, directive⟩ := item
      cases directive with
      | field field => rfl
      | literal data => rfl

/-- The items of tokens further behind in a text are shifted. -/
theorem items_add (position count : Nat) (tokens : List Token) :
    items (position + count) tokens = (items position tokens).map (Item.shift count) := by
  induction tokens generalizing position with
  | nil => rfl
  | cons token tokens ih =>
      cases token with
      | field spelling =>
          rw [items, Nat.add_right_comm, ih, items, List.map_cons]
          rfl
      | literal character => rw [items, Nat.add_right_comm, ih, items, map_shift_joinLiteral]

/-- The items of two lists of tokens are joined. -/
theorem items_append (position : Nat) (tokens others : List Token) :
    items position (tokens ++ others) =
      Item.join (items position tokens)
        (items (position + (tokens.flatMap text).length) others) := by
  induction tokens generalizing position with
  | nil => rfl
  | cons token tokens ih =>
      rw [List.flatMap_cons, List.length_append, ← Nat.add_assoc]
      cases token with
      | field spelling => rw [List.cons_append, items, ih, items, Item.join_field]
      | literal character => rw [List.cons_append, items, ih, items, Item.join_joinLiteral]

/-- Tokens that end in a field have items that do. -/
theorem getLast?_items {tokens : List Token} {spelling : Spelling}
    (last : tokens.getLast? = some (.field spelling)) (position : Nat) :
    ((items position tokens).map Item.directive).getLast? = some (.field spelling.field) := by
  obtain ⟨front, rfl⟩ := List.getLast?_eq_some_iff.mp last
  rw [items_append, items, items, Item.join_field_behind, List.map_append, List.map_singleton,
    List.getLast?_concat]

end Token

/-- The digits of a field end at its letter, whatever follows the field. -/
theorem Spelling.takeWhile_text (spelling : Spelling) (text : List Char) :
    ((spelling.text ++ text).drop
        (markText pointerFlag spelling.flags.pointer).length).takeWhile isQuantityDigit =
      (spelling.flags.text.drop
        (markText pointerFlag spelling.flags.pointer).length).takeWhile isQuantityDigit := by
  obtain ⟨⟨pointer, digits, aligned, order, fill⟩, kind, lateFill⟩ := spelling
  let behind := digits ++ (markText alignFlag aligned ++ (order.flag
    ++ (fill.map Fill.flag).toList))
  have flags_text : Flags.text ⟨pointer, digits, aligned, order, fill⟩ =
      markText pointerFlag pointer ++ behind := by
    simp [Flags.text, behind]
  have whole : Spelling.text ⟨⟨pointer, digits, aligned, order, fill⟩, kind, lateFill⟩ ++ text =
      markText pointerFlag pointer
        ++ (behind ++ kind.letter :: ((lateFill.map Fill.flag).toList ++ text)) := by
    simp [Spelling.text, flags_text]
  have letter : isQuantityDigit kind.letter = false := by
    cases kind <;> rfl
  have stops (rest : List Char) :
      (kind.letter :: rest).takeWhile isQuantityDigit = [] :=
    List.takeWhile_cons_of_neg (by rw [letter]; exact Bool.false_ne_true)
  rw [whole, flags_text, List.drop_left, List.drop_left, List.takeWhile_append, stops]
  split
  · rename_i all
    rw [List.append_nil]
    exact ((List.takeWhile_prefix _).eq_of_length all).symm
  · rfl

/-- A field has no fill when there is none in front of its letter and none behind it. -/
theorem Spelling.fill_eq_none_iff (spelling : Spelling) :
    spelling.field.fill = none ↔ spelling.flags.fill = none ∧ spelling.lateFill = none := by
  cases early : spelling.flags.fill with
  | none => simp [field, early]
  | some fill => simp [field, early]

/-- Three characters stand for fills. -/
theorem Fill.ofFlag?_eq_none_iff {character : Char} :
    Fill.ofFlag? character = none ↔ character ≠ '0' ∧ character ≠ '1' ∧ character ≠ 'r' := by
  unfold Fill.ofFlag?
  split
  · simp
  · simp
  · simp
  · rename_i zero one random
    exact iff_of_true rfl ⟨zero, one, random⟩

/-- A field that ends before a text ends before every other one that does not start with a fill for
it. -/
theorem Spelling.EndsBefore.of_head? {spelling : Spelling} {text other : List Char}
    (ends : spelling.EndsBefore text)
    (own_fill : spelling.field.fill = none →
      ∀ next, other.head? = some next → Fill.ofFlag? next = none) : spelling.EndsBefore other where
  all_digits := by
    rw [Spelling.takeWhile_text, ← Spelling.takeWhile_text spelling text]
    exact ends.all_digits
  one_fill := ends.one_fill
  own_fill early late := own_fill (spelling.fill_eq_none_iff.mpr ⟨early, late⟩)

namespace Reads

variable {text more : List Char} {tokens others : List Token}

/-- The readings of two texts make a reading of both, unless the second text starts with a fill and
the first one ends in a field that has none. -/
theorem append (reads : Reads text tokens) (more_reads : Reads more others)
    (apart : ∀ spelling, tokens.getLast? = some (.field spelling) → spelling.field.fill = none →
      ∀ next, more.head? = some next → Fill.ofFlag? next = none) :
    Reads (text ++ more) (tokens ++ others) := by
  induction reads with
  | nil => exact more_reads
  | @literal character text tokens rest ih =>
      rw [List.append_assoc]
      refine .literal character (ih fun spelling last => apart spelling ?_)
      rw [List.getLast?_cons, last]
      rfl
  | @field spelling text tokens ends rest ih =>
      rw [List.append_assoc]
      refine .field (ends.of_head? fun no_fill next head => ?_) (ih fun other last =>
        apart other ?_)
      · cases text with
        | nil =>
            obtain rfl := unique rest .nil
            exact apart spelling rfl no_fill next head
        | cons first text =>
            obtain ⟨early, late⟩ := spelling.fill_eq_none_iff.mp no_fill
            exact ends.own_fill early late next head
      · rw [List.getLast?_cons, last]
        rfl

end Reads

/-- `compile` of two accepted texts behind each other joins their items, unless the second text
starts with a fill for the last field of the first one. -/
theorem Format.compile_append {first second : String} {front back : Format}
    (front_compiled : (compile (.text first)).outcome = .ok front)
    (back_compiled : (compile (.text second)).outcome = .ok back)
    (apart : ∀ field, front.directives.getLast? = some (.field field) → field.fill = none →
      ∀ next, second.toList.head? = some next → Fill.ofFlag? next = none) :
    (compile (.text (first ++ second))).outcome = .ok ⟨.text (first ++ second),
      Item.join front.items (back.items.map (Item.shift first.length))⟩ := by
  obtain ⟨text, tokens, held, reads, sound, rfl⟩ := exists_reads front_compiled
  obtain rfl := Option.some.inj held
  obtain ⟨more, others, held, more_reads, others_sound, rfl⟩ := exists_reads back_compiled
  obtain rfl := Option.some.inj held
  have both := reads.append more_reads fun spelling last =>
    apart _ (Token.getLast?_items last 0)
  rw [← String.toList_append] at both
  rw [both.compile (List.forall_mem_append.mpr ⟨sound, others_sound⟩), Token.items_append,
    reads.flatMap_text, Token.items_add, String.length_toList]

end BitRecord
