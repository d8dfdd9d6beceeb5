/-
# The items of a format

A text is accepted when each of its pieces is: a literal run of characters that
fit in a byte, or a field that breaks no rule and whose quantity can be read. The
items of an accepted format are its pieces, one for one, each at the place where
its text starts.
-/

import BitRecord.Format.Basic

namespace BitRecord

/-- Whether a directive breaks no rule. A literal never does. -/
def Directive.Valid : Directive → Prop
  | .field f => f.Valid
  | .literal _ => True

/-- The byte of a literal character. -/
def Piece.byte (character : Char) : UInt8 := UInt8.ofNat character.toNat

namespace Piece

/-- Whether a piece is accepted in a format: its characters fit in a byte, or its field is readable
and valid. -/
def Sound : Piece → Prop
  | run characters => ∀ character ∈ characters, character.toNat < 256
  | field spelling => spelling.flags.digits.length ≤ DigitLimit.digits ∧ spelling.field.Valid
  | dangling | cutOff _ | unknown _ _ => False

/-- The directive of a piece. A faulty piece has none. -/
def directive? : Piece → Option Directive
  | run characters => some (.literal (characters.map byte))
  | field spelling => some (.field spelling.field)
  | dangling | cutOff _ | unknown _ _ => none

/-- A sound piece has a directive. -/
theorem Sound.exists_directive {piece : Piece} (sound : piece.Sound) :
    ∃ directive, piece.directive? = some directive := by
  cases piece with
  | run characters | field spelling => exact ⟨_, rfl⟩
  | dangling | cutOff flags | unknown flags letter => contradiction

/-- The failures of `pieceItem` at a position. -/
inductive Refused (position : Nat) : Piece → Failure → Prop
  | run {before after : List Char} {character : Char}
      (narrow : ∀ other ∈ before, other.toNat < 256) (wide : 256 ≤ character.toNat) :
      Refused position (.run (before ++ character :: after))
        (.placed (.wideLiteral character) (position + before.length))
  | field {spelling : Spelling} {fault : FieldFault} (readable : spelling.isReadable = true)
      (faulty : spelling.field.fault? = some fault) :
      Refused position (.field spelling) (.placed (.invalidField fault spelling.field) position)
  | long {spelling : Spelling} (long : spelling.isReadable = false) :
      Refused position (.field spelling)
        (.unplaced (.longQuantity spelling.flags.digits.length))
  | dangling : Refused position .dangling (.placed .danglingEscape position)
  | cutOff (flags : Flags) : Refused position (.cutOff flags) (.placed .missingKind position)
  | unknown (flags : Flags) (letter : Char) :
      Refused position (.unknown flags letter)
        (.placed (.unknownKind letter) (position + 1 + flags.text.length))

/-- The items of pieces, the first of which has the given position. -/
def items : (position : Nat) → List Piece → List Item
  | _, [] => []
  | position, piece :: rest =>
      (piece.directive?.map fun directive => ⟨position, directive⟩).toList
        ++ items (position + piece.text.length) rest

/-- The directives are those of the pieces, wherever the pieces stand. -/
theorem map_directive_items (position : Nat) (pieces : List Piece) :
    (items position pieces).map Item.directive = pieces.filterMap directive? := by
  induction pieces generalizing position with
  | nil => rfl
  | cons piece rest ih =>
      rw [items, List.map_append, ih, List.filterMap_cons]
      cases piece.directive? <;> rfl

end Piece

/-- `Except.map` succeeds when its argument does. -/
theorem map_eq_ok_iff {ε α β : Type} {change : α → β} {first : Except ε α} {result : β} :
    first.map change = .ok result ↔ ∃ value, first = .ok value ∧ change value = result := by
  cases first with
  | error cause => simp [Except.map]
  | ok value => simp [Except.map]

/-- `Except.map` fails as its argument does. -/
theorem map_eq_error_iff {ε α β : Type} {change : α → β} {first : Except ε α} {cause : ε} :
    first.map change = .error cause ↔ first = .error cause := by
  cases first with
  | error own => simp [Except.map]
  | ok value => simp [Except.map]

/-- A pure step at the end does not fail. -/
theorem Traced.outcome_bind_pure_eq_error_iff {α β : Type} {first : Traced α} {change : α → β}
    {failure : Failure} :
    (first >>= fun value => pure (change value)).outcome = .error failure ↔
      first.outcome = .error failure := by
  rw [bind_pure_comp, map_eq]
  exact map_eq_error_iff

namespace Format

/-- `literalBytes` succeeds exactly when every character fits in a byte. -/
theorem literalBytes_eq_ok_iff {position : Nat} {characters : List Char} {data : Bytes} :
    literalBytes position characters = .ok data ↔
      (Piece.run characters).Sound ∧ data = characters.map Piece.byte := by
  induction characters generalizing position data with
  | nil => simp [literalBytes, Piece.Sound, eq_comm]
  | cons character characters ih =>
      have split : (Piece.run (character :: characters)).Sound ↔
          character.toNat < 256 ∧ (Piece.run characters).Sound := List.forall_mem_cons
      rw [literalBytes, split, List.map_cons]
      by_cases narrow : character.toNat < 256
      · rw [if_pos narrow, map_eq_ok_iff]
        apply Iff.intro
        · intro success
          obtain ⟨others, accepted, rfl⟩ := success
          obtain ⟨sound, rfl⟩ := ih.mp accepted
          exact ⟨⟨narrow, sound⟩, rfl⟩
        · intro parts
          obtain ⟨⟨_, sound⟩, rfl⟩ := parts
          exact ⟨_, ih.mpr ⟨sound, rfl⟩, rfl⟩
      · simp [narrow]

/-- `literalItem` succeeds exactly on a sound run, with the literal of its bytes. -/
theorem literalItem_outcome_eq_ok_iff {position : Nat} {characters : List Char} {item : Item} :
    (literalItem position characters).outcome = .ok item ↔
      (Piece.run characters).Sound ∧
        item = ⟨position, .literal (characters.map Piece.byte)⟩ := by
  rw [literalItem, map_eq_ok_iff]
  apply Iff.intro
  · intro success
    obtain ⟨data, accepted, same⟩ := success
    obtain ⟨sound, rfl⟩ := literalBytes_eq_ok_iff.mp accepted
    exact ⟨sound, same.symm⟩
  · intro parts
    obtain ⟨sound, rfl⟩ := parts
    exact ⟨_, literalBytes_eq_ok_iff.mpr ⟨sound, rfl⟩, rfl⟩

/-- `fieldItem` succeeds exactly on a sound spelling, with the field that it spells. -/
theorem fieldItem_outcome_eq_ok_iff {position : Nat} {spelling : Spelling} {item : Item} :
    (fieldItem position spelling).outcome = .ok item ↔
      (Piece.field spelling).Sound ∧ item = ⟨position, .field spelling.field⟩ := by
  have sound_iff : (Piece.field spelling).Sound ↔
      spelling.isReadable = true ∧ spelling.field.fault? = none := by
    rw [Spelling.isReadable_iff, Field.fault?_eq_none_iff]
    exact Iff.rfl
  rw [sound_iff, fieldItem]
  cases readable : spelling.isReadable with
  | false => exact iff_of_false (fun success => by contradiction) (by simp)
  | true =>
      cases fault : spelling.field.fault? with
      | some fault => exact iff_of_false (fun success => by contradiction) (by simp)
      | none =>
          apply Iff.intro
          · intro success
            exact ⟨⟨rfl, rfl⟩, (Except.ok.inj success).symm⟩
          · intro parts
            obtain ⟨_, rfl⟩ := parts
            rfl

/-- `pieceItem` succeeds exactly on a sound piece. -/
theorem pieceItem_outcome_eq_ok_iff {position : Nat} {piece : Piece} {item : Item} :
    (pieceItem position piece).outcome = .ok item ↔
      piece.Sound ∧ piece.directive? = some item.directive ∧ item.position = position := by
  have same_iff (directive : Directive) : item = ⟨position, directive⟩ ↔
      some directive = some item.directive ∧ item.position = position := by
    obtain ⟨place, own⟩ := item
    rw [Item.mk.injEq, Option.some.injEq, and_comm, eq_comm]
  cases piece with
  | run characters =>
      exact literalItem_outcome_eq_ok_iff.trans (and_congr_right' (same_iff _))
  | field spelling =>
      exact fieldItem_outcome_eq_ok_iff.trans (and_congr_right' (same_iff _))
  | dangling | cutOff flags | unknown flags letter =>
      apply iff_of_false
      · intro success
        contradiction
      · intro parts
        obtain ⟨unsound, _⟩ := parts
        contradiction

/-- `literalBytes` fails at a wide character behind narrow ones, at its place among the
characters. -/
theorem literalBytes_of_wide {position : Nat} {before after : List Char} {character : Char}
    (narrow : ∀ other ∈ before, other.toNat < 256) (wide : 256 ≤ character.toNat) :
    literalBytes position (before ++ character :: after) =
      .error (.placed (.wideLiteral character) (position + before.length)) := by
  induction before generalizing position with
  | nil => exact if_neg (Nat.not_lt.mpr wide)
  | cons first before ih =>
      obtain ⟨first_narrow, others⟩ := List.forall_mem_cons.mp narrow
      rw [List.cons_append, literalBytes, if_pos first_narrow, ih others, List.length_cons,
        Nat.add_assoc, Nat.add_comm 1]
      rfl

/-- `literalBytes` fails at the first character that does not fit in a byte. -/
theorem literalBytes_eq_error_iff {position : Nat} {characters : List Char} {failure : Failure} :
    literalBytes position characters = .error failure ↔
      ∃ before character after, characters = before ++ character :: after ∧
        (∀ other ∈ before, other.toNat < 256) ∧ 256 ≤ character.toNat ∧
        failure = .placed (.wideLiteral character) (position + before.length) := by
  apply Iff.intro
  · intro refused
    induction characters generalizing position with
    | nil => contradiction
    | cons first characters ih =>
        rw [literalBytes] at refused
        split at refused
        · rename_i narrow
          obtain ⟨before, character, after, rfl, others, wide, rfl⟩ :=
            ih (map_eq_error_iff.mp refused)
          refine ⟨first :: before, character, after, rfl,
            List.forall_mem_cons.mpr ⟨narrow, others⟩, wide, ?_⟩
          rw [List.length_cons, Nat.add_assoc, Nat.add_comm 1]
        · rename_i wide
          obtain rfl := Except.error.inj refused
          exact ⟨[], first, characters, rfl, List.forall_mem_nil _, Nat.not_lt.mp wide, rfl⟩
  · intro found
    obtain ⟨before, character, after, rfl, narrow, wide, rfl⟩ := found
    exact literalBytes_of_wide narrow wide

/-- `pieceItem` fails exactly with the failures of `Refused`. -/
theorem pieceItem_outcome_eq_error_iff {position : Nat} {piece : Piece} {failure : Failure} :
    (pieceItem position piece).outcome = .error failure ↔ piece.Refused position failure := by
  apply Iff.intro
  · intro refused
    cases piece with
    | run characters =>
        obtain ⟨before, character, after, rfl, narrow, wide, rfl⟩ :=
          literalBytes_eq_error_iff.mp (map_eq_error_iff.mp refused)
        exact .run narrow wide
    | field spelling =>
        rw [pieceItem, fieldItem] at refused
        split at refused
        · rename_i readable
          cases faulty : spelling.field.fault? with
          | none =>
              rw [faulty] at refused
              contradiction
          | some fault =>
              rw [faulty] at refused
              obtain rfl := Except.error.inj refused
              exact .field readable faulty
        · rename_i long
          obtain rfl := Except.error.inj refused
          exact .long (Bool.eq_false_iff.mpr long)
    | dangling | cutOff flags | unknown flags letter =>
        obtain rfl := Except.error.inj refused
        constructor
  · intro refused
    cases refused with
    | run narrow wide =>
        exact map_eq_error_iff.mpr (literalBytes_of_wide narrow wide)
    | field readable faulty =>
        rw [pieceItem, fieldItem, if_pos readable, faulty]
        rfl
    | long long =>
        rw [pieceItem, fieldItem, long]
        rfl
    | dangling | cutOff flags | unknown flags letter => rfl

/-- `pieceItem` of a sound piece gives an item. -/
theorem exists_pieceItem_of_sound {piece : Piece} (sound : piece.Sound) (position : Nat) :
    ∃ item, (pieceItem position piece).outcome = .ok item := by
  obtain ⟨directive, some_directive⟩ := sound.exists_directive
  exact ⟨⟨position, directive⟩, pieceItem_outcome_eq_ok_iff.mpr ⟨sound, some_directive, rfl⟩⟩

/-- `itemsOf` succeeds exactly when every piece is sound. -/
theorem itemsOf_outcome_eq_ok_iff {position : Nat} {pieces : List Piece} {items : List Item} :
    (itemsOf position pieces).outcome = .ok items ↔
      (∀ piece ∈ pieces, piece.Sound) ∧ items = Piece.items position pieces := by
  induction pieces generalizing position items with
  | nil => simp [itemsOf, Piece.items, eq_comm]
  | cons piece rest ih =>
      rw [List.forall_mem_cons, Piece.items]
      unfold itemsOf
      split
      · contradiction
      · rename_i characters others same
        obtain ⟨rfl, rfl⟩ := List.cons.inj same
        apply iff_of_false
        · intro success
          contradiction
        · intro parts
          obtain ⟨⟨_, sound⟩, _⟩ := parts
          exact absurd (sound .dangling List.mem_cons_self) not_false
      · rename_i first others _ same
        obtain ⟨rfl, rfl⟩ := List.cons.inj same
        rw [Traced.outcome_bind_eq_ok_iff]
        apply Iff.intro
        · intro success
          obtain ⟨item, first, later⟩ := success
          obtain ⟨sound, directive, rfl⟩ := pieceItem_outcome_eq_ok_iff.mp first
          obtain ⟨others, accepted, whole⟩ := Traced.outcome_bind_eq_ok_iff.mp later
          obtain ⟨others_sound, rfl⟩ := ih.mp accepted
          refine ⟨⟨sound, others_sound⟩, ?_⟩
          rw [directive]
          exact (Except.ok.inj whole).symm
        · intro parts
          obtain ⟨⟨sound, others_sound⟩, rfl⟩ := parts
          obtain ⟨directive, some_directive⟩ := sound.exists_directive
          refine ⟨⟨position, directive⟩,
            pieceItem_outcome_eq_ok_iff.mpr ⟨sound, some_directive, rfl⟩, ?_⟩
          refine Traced.outcome_bind_eq_ok_iff.mpr ⟨_, ih.mpr ⟨others_sound, rfl⟩, ?_⟩
          rw [some_directive]
          rfl

/-- `compile` succeeds exactly on a value that holds a text whose pieces are all sound. -/
theorem compile_outcome_eq_ok_iff {given : Value} {format : Format} :
    (compile given).outcome = .ok format ↔
      ∃ text, textOf? given = some text ∧ (∀ piece ∈ pieces text, piece.Sound) ∧
        format = ⟨given, Piece.items 0 (pieces text)⟩ := by
  rw [compile]
  cases held : textOf? given with
  | none =>
      apply iff_of_false
      · intro success
        contradiction
      · intro parts
        obtain ⟨text, missing, _⟩ := parts
        contradiction
  | some text =>
      simp only [Option.some.injEq, exists_eq_left']
      rw [Traced.outcome_bind_eq_ok_iff]
      apply Iff.intro
      · intro success
        obtain ⟨items, accepted, whole⟩ := success
        obtain ⟨sound, rfl⟩ := itemsOf_outcome_eq_ok_iff.mp accepted
        exact ⟨sound, (Except.ok.inj whole).symm⟩
      · intro parts
        obtain ⟨sound, rfl⟩ := parts
        exact ⟨_, itemsOf_outcome_eq_ok_iff.mpr ⟨sound, rfl⟩, rfl⟩

/-- At most `limit` pieces of a text, by a structural recursion that the kernel can evaluate. -/
def piecesWithin : (limit : Nat) → List Char → List Piece
  | 0, _ => []
  | limit + 1, text =>
      match takePiece? text with
      | none => []
      | some (piece, rest) => piece :: piecesWithin limit rest

/-- There are no more pieces than characters. -/
theorem piecesWithin_eq {limit : Nat} {text : List Char} (enough : text.length ≤ limit) :
    piecesWithin limit text = pieces text := by
  induction limit generalizing text with
  | zero =>
      obtain rfl := List.eq_nil_of_length_eq_zero (Nat.le_zero.mp enough)
      rw [pieces]
      rfl
  | succ limit ih =>
      cases taken : takePiece? text with
      | none =>
          obtain rfl := takePiece?_eq_none_iff.mp taken
          rw [pieces]
          rfl
      | some first =>
          obtain ⟨piece, rest⟩ := first
          have shorter := length_takePiece?_lt taken
          have others := @ih rest (by omega)
          rw [piecesWithin, taken, pieces_of_taken taken, ← others]

/-- `compile` of a text whose items are computed through `piecesWithin`. -/
theorem compile_of_piecesWithin {text : String} {limit : Nat} {items : List Item}
    (enough : text.toList.length ≤ limit)
    (read : (itemsOf 0 (piecesWithin limit text.toList)).outcome = .ok items) :
    (compile (.text text)).outcome = .ok ⟨.text text, items⟩ := by
  rw [piecesWithin_eq enough] at read
  exact Traced.outcome_bind_of_ok read _

/-- `compile` of a text whose failure is computed through `piecesWithin`. -/
theorem compile_error_of_piecesWithin {text : String} {limit : Nat} {failure : Failure}
    (enough : text.toList.length ≤ limit)
    (read : (itemsOf 0 (piecesWithin limit text.toList)).outcome = .error failure) :
    (compile (.text text)).outcome = .error failure := by
  rw [piecesWithin_eq enough] at read
  exact Traced.outcome_bind_of_error read _

/-- Every directive of an accepted format is valid. -/
theorem valid_of_compile {given : Value} {format : Format}
    (compiled : (compile given).outcome = .ok format) :
    ∀ directive ∈ format.directives, directive.Valid := by
  intro directive member
  obtain ⟨text, _, sound, rfl⟩ := compile_outcome_eq_ok_iff.mp compiled
  rw [directives, Piece.map_directive_items, List.mem_filterMap] at member
  obtain ⟨piece, piece_member, same⟩ := member
  have piece_sound := sound piece piece_member
  cases piece with
  | field spelling =>
      obtain rfl := Option.some.inj same
      exact piece_sound.2
  | run characters =>
      obtain rfl := Option.some.inj same
      exact trivial
  | dangling | cutOff flags | unknown flags letter => contradiction

/-- The directives of the items are valid when those of the format are. -/
theorem valid_items {format : Format} (valid : ∀ directive ∈ format.directives, directive.Valid) :
    ∀ item ∈ format.items, item.directive.Valid :=
  fun _ member => valid _ (List.mem_map_of_mem member)

end Format

end BitRecord
