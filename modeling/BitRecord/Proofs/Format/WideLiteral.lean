/-
# Where a wide literal is reported

`Format.compile` reports a literal character that takes more than a byte at the
start of its run plus the number of characters of the run in front of it, that is
by its place in the decoded run. A doubled escape character is one character of
the run and two of the text, so the place of the character in the text is greater
by one for every escape in front of it in its run, and the position is that of the
character only when there is no escape.
-/

import Mathlib.Data.List.Forall2
import BitRecord.Proofs.Format.Stopping

namespace BitRecord

/-- Whether a character takes more than a byte. -/
def isWide (character : Char) : Bool := 256 ≤ character.toNat

theorem isWide_eq_false_iff {character : Char} :
    isWide character = false ↔ character.toNat < 256 := by
  rw [isWide, decide_eq_false_iff_not, Nat.not_le]

/-- A fill is written in a character that fits in a byte. -/
private theorem isWide_of_mem_fill (fill : Option Fill) :
    ∀ character ∈ (fill.map Fill.flag).toList, isWide character = false := by
  cases fill with
  | none => exact List.forall_mem_nil _
  | some fill => exact List.forall_mem_singleton.mpr (by cases fill <;> rfl)

/-- A mark is written in a character that fits in a byte when the mark does. -/
private theorem isWide_of_mem_mark {mark : Char} (narrow : isWide mark = false) (present : Bool) :
    ∀ character ∈ markText mark present, isWide character = false := by
  cases present with
  | false => exact List.forall_mem_nil _
  | true => exact List.forall_mem_singleton.mpr narrow

/-- An order is written in a character that fits in a byte. -/
private theorem isWide_of_mem_order (order : Order) :
    ∀ character ∈ order.flag, isWide character = false := by
  cases order with
  | native => exact List.forall_mem_nil _
  | little | big => exact List.forall_mem_singleton.mpr rfl

/-- Flags are written in characters that fit in a byte. -/
theorem Flags.AllDigits.isWide_of_mem_text {flags : Flags} (digits : flags.AllDigits) :
    ∀ character ∈ flags.text, isWide character = false := by
  obtain ⟨pointer, own, aligned, order, fill⟩ := flags
  have own_narrow : ∀ digit ∈ own, isWide digit = false := fun digit member => by
    have bounds := digits digit member
    rw [isQuantityDigit, Bool.and_eq_true, decide_eq_true_iff, decide_eq_true_iff] at bounds
    have high : digit.toNat ≤ 57 := bounds.2
    exact isWide_eq_false_iff.mpr (by omega)
  simp only [Flags.text, List.forall_mem_append]
  exact ⟨⟨⟨⟨isWide_of_mem_mark rfl pointer, own_narrow⟩, isWide_of_mem_mark rfl aligned⟩,
    isWide_of_mem_order order⟩, isWide_of_mem_fill fill⟩

/-- A field is written in characters that fit in a byte. -/
theorem Spelling.EndsBefore.isWide_of_mem_text {spelling : Spelling} {text : List Char}
    (ends : spelling.EndsBefore text) :
    ∀ character ∈ (Piece.field spelling).text, isWide character = false := by
  have flags_narrow := ends.allDigits.isWide_of_mem_text
  have letter_narrow : isWide spelling.kind.letter = false := by
    cases spelling.kind <;> rfl
  exact List.forall_mem_cons.mpr ⟨rfl, List.forall_mem_append.mpr
    ⟨flags_narrow, List.forall_mem_cons.mpr ⟨letter_narrow, isWide_of_mem_fill _⟩⟩⟩

/-- The text of literal characters that fit in a byte is made of such characters. -/
theorem isWide_of_mem_literals {characters : List Char}
    (narrow : ∀ character ∈ characters, character.toNat < 256) :
    ∀ character ∈ characters.flatMap Piece.literalText, isWide character = false := by
  intro character member
  obtain ⟨literal, literal_member, character_member⟩ := List.mem_flatMap.mp member
  obtain rfl : character = literal := by
    rw [Piece.literalText] at character_member
    split at character_member
    · simp_all
    · simpa using character_member
  exact isWide_eq_false_iff.mpr (narrow character literal_member)

/-- A text with a reading of sound tokens has no wide character. -/
theorem Reads.isWide_of_mem {text : List Char} {tokens : List Token} (reads : Reads text tokens)
    (sound : ∀ token ∈ tokens, token.Sound) : ∀ character ∈ text, isWide character = false := by
  induction reads with
  | nil => exact List.forall_mem_nil _
  | literal character rest ih =>
      obtain ⟨narrow, others⟩ := List.forall_mem_cons.mp sound
      refine List.forall_mem_append.mpr ⟨?_, ih others⟩
      have literal := isWide_of_mem_literals (List.forall_mem_singleton.mpr narrow)
      rwa [List.flatMap_singleton] at literal
  | field ends rest ih =>
      exact List.forall_mem_append.mpr
        ⟨ends.isWide_of_mem_text, ih (List.forall_mem_cons.mp sound).2⟩

/-- The text of literal characters is longer than they are by one for each escape. -/
theorem length_flatMap_literalText (characters : List Char) :
    (characters.flatMap Piece.literalText).length =
      characters.length + characters.count escapeCharacter := by
  induction characters with
  | nil => rfl
  | cons character characters ih =>
      rw [List.flatMap_cons, List.length_append, ih, List.length_cons, List.count_cons,
        Piece.literalText]
      by_cases escape : character = escapeCharacter
      · simp [escape]
        omega
      · simp [escape]
        omega

namespace Format

/-- A format whose last token is no literal character ends in no literal. -/
theorem getLast?_directives_of_tokens {tokens : List Token}
    (no_literal : ∀ character, tokens.getLast? ≠ some (.literal character)) (given : Value)
    (data : Bytes) :
    (Format.mk given (Token.items 0 tokens)).directives.getLast? ≠ some (.literal data) := by
  cases last : tokens.getLast? with
  | none =>
      rw [List.getLast?_eq_none_iff.mp last]
      intro found
      contradiction
  | some token =>
      cases token with
      | literal character => exact absurd last (no_literal character)
      | field spelling =>
          intro found
          rw [directives, Token.getLast?_items last] at found
          cases Option.some.inj found

/-- When `compile` fails with `wideLiteral`, the text is a format that does not end in a literal,
literal characters that fit in a byte, and the first wide character of the text. The position is the
length of the format's text plus the number of these characters. The place of the wide character is
greater by one for each of them that is an escape character. -/
theorem compile_wideLiteral {text : String} {character : Char} {position : Option Nat}
    (refused : (compile (.text text)).outcome = .error ⟨.wideLiteral character, position⟩) :
    ∃ (front : String) (format : Format) (run rest : List Char),
      text.toList = front.toList ++ run.flatMap Piece.literalText ++ character :: rest ∧
      (compile (.text front)).outcome = .ok format ∧
      (∀ data, format.directives.getLast? ≠ some (.literal data)) ∧
      position = some (front.length + run.length) ∧
      text.toList.findIdx? isWide =
        some (front.length + run.length + run.count escapeCharacter) ∧
      (position = text.toList.findIdx? isWide ↔ escapeCharacter ∉ run) := by
  obtain ⟨front, tokens, piece, behind, whole, reads, sound, _, no_literal, failed, _⟩ :=
    compile_stops_behind refused (fun same => by cases same)
  generalize failure : (⟨.wideLiteral character, position⟩ : Failure) = own at failed
  cases failed with
  | long unreadable | field readable faulty | dangling | cutOff flags | unknown flags letter =>
      cases failure
  | @run before after own narrow wide =>
      obtain ⟨same, rfl⟩ := Failure.mk.inj failure
      obtain rfl := Cause.wideLiteral.inj same
      have one : Piece.literalText character = [character] := by
        refine if_neg ?_
        rintro rfl
        contradiction
      have place : text.toList =
          front.toList ++ before.flatMap Piece.literalText ++
            character :: (after.flatMap Piece.literalText ++ behind) := by
        rw [whole, Piece.text, List.flatMap_append, List.flatMap_cons, one]
        simp only [List.append_assoc, List.cons_append, List.nil_append]
      have index : text.toList.findIdx? isWide =
          some (front.length + before.length + before.count escapeCharacter) := by
        have narrow_front := List.forall_mem_append.mpr
          ⟨reads.isWide_of_mem sound, isWide_of_mem_literals narrow⟩
        have is_wide : isWide character = true := decide_eq_true wide
        rw [place, List.findIdx?_append, List.findIdx?_eq_none_iff.mpr narrow_front,
          Option.none_or, List.findIdx?_cons, if_pos is_wide, Option.map_some, Nat.zero_add,
          List.length_append, String.length_toList, length_flatMap_literalText, Nat.add_assoc]
      refine ⟨front, _, before, _, place, reads.compile sound,
        getLast?_directives_of_tokens (no_literal _ rfl) _, rfl, index, ?_⟩
      rw [index, Option.some.injEq, ← List.count_eq_zero]
      omega

/-- A field and an escape stand in front of the wide character. -/
theorem compile_wideLiteral_escape :
    (compile (.text "%y%%€")).outcome = .error ⟨.wideLiteral '€', some 3⟩ ∧
      ∃ (front : String) (format : Format) (run rest : List Char),
        "%y%%€".toList = front.toList ++ run.flatMap Piece.literalText ++ '€' :: rest ∧
        (compile (.text front)).outcome = .ok format ∧
        (∀ data, format.directives.getLast? ≠ some (.literal data)) ∧
        some 3 = some (front.length + run.length) ∧
        "%y%%€".toList.findIdx? isWide =
          some (front.length + run.length + run.count escapeCharacter) ∧
        (some 3 = "%y%%€".toList.findIdx? isWide ↔ escapeCharacter ∉ run) := by
  have refused : (compile (.text "%y%%€")).outcome = .error ⟨.wideLiteral '€', some 3⟩ :=
    @compile_error_of_piecesWithin _ 5 _ (by decide) (by decide +kernel)
  exact ⟨refused, compile_wideLiteral refused⟩

/-- The position of a wide literal character is not always its place in the text: after one escape
it is that of the second character of the escape. -/
theorem compile_wideLiteral_misplaced :
    ¬ ∀ (text : String) (character : Char) (position : Option Nat),
      (compile (.text text)).outcome = .error ⟨.wideLiteral character, position⟩ →
        position = text.toList.findIdx? isWide ∧
          position.bind (text.toList[·]?) = some character := by
  intro always
  have refused : (compile (.text "%%€")).outcome = .error ⟨.wideLiteral '€', some 1⟩ :=
    @compile_error_of_piecesWithin _ 3 _ (by decide) (by decide +kernel)
  have placed := (always _ _ _ refused).1
  revert placed
  decide

end Format

end BitRecord
