/-
# Where a refused field is reported

`Format.compile` refuses a text for a field when the text in front of the field is
a format and the field is cut off (`Cause.missingKind`), has a letter that stands
for no type (`Cause.unknownKind`), or breaks a rule (`Cause.invalidField`). The
failure is at the escape character of the field, or at the letter, which stands
behind the longest flags. The pieces of the front do not depend on the field that
is refused, so the events are those of compiling the front alone. A quantity of
too many digits is refused as well, but with `Cause.longQuantity`.
-/

import Mathlib.Data.List.Forall2
import BitRecord.Proofs.Format.LongestFlags
import BitRecord.Proofs.Format.Stopping

namespace BitRecord

/-- Whether a cause is that of a cut-off field, an unknown type or a broken rule. -/
def Cause.concernsField : Cause → Bool
  | missingKind | unknownKind _ | invalidField _ _ => true
  | _ => false

/-- The errors about a field whose escape character stands at a place, by what stands behind that
character: the family, the message and the failure. -/
inductive FieldRefusal (place : Nat) : (behind : List Char) → Family → String → Failure → Prop
  /-- The text ends before the letter. -/
  | cutOff {flags : Flags} (all_digits : flags.AllDigits) :
      FieldRefusal place flags.text .malformedFormat "directive without data type"
        (.placed .missingKind place)
  /-- The letter behind the longest flags stands for no type, and the message quotes it. -/
  | unknown {flags : Flags} {letter : Char} {rest : List Char}
      (longest : flags.LongestIn (flags.text ++ letter :: rest))
      (no_type : Kind.ofLetter? letter = none) :
      FieldRefusal place (flags.text ++ letter :: rest) .unknownKind
        ("unknown data type '" ++ letter.toString ++ "'")
        (.placed (.unknownKind letter) (place + 1 + flags.text.length))
  /-- The field breaks a rule, and the message is that of the rule. -/
  | invalid {spelling : Spelling} {rest : List Char} {fault : FieldFault}
      (ends : spelling.EndsBefore rest)
      (readable : spelling.flags.digits.length ≤ DigitLimit.digits)
      (faulty : spelling.field.fault? = some fault) :
      FieldRefusal place (spelling.text ++ rest) .invalidDirective (fault.message spelling.field)
        (.placed (.invalidField fault spelling.field) place)

section Taking

variable {place : Nat} {behind rest : List Char} {piece : Piece} {family : Family}
  {message : String} {failure : Failure}

/-- `takeField` gives a cut-off field only for a text of flags. -/
private theorem read_of_cutOff {flags : Flags} (taken : takeField behind = (.cutOff flags, rest)) :
    Flags.read behind = (flags, []) := by
  unfold takeField at taken
  split at taken
  · rename_i own read
    obtain ⟨same, _⟩ := Prod.mk.inj taken
    obtain rfl := Piece.cutOff.inj same
    exact read
  · repeat' split at taken
    all_goals cases (Prod.mk.inj taken).1

/-- `takeField` gives an unknown type only for the letter behind the flags. -/
private theorem read_of_unknown {flags : Flags} {letter : Char}
    (taken : takeField behind = (.unknown flags letter, rest)) :
    Flags.read behind = (flags, letter :: rest) ∧ Kind.ofLetter? letter = none := by
  unfold takeField at taken
  split at taken
  · cases (Prod.mk.inj taken).1
  · rename_i own first following read
    split at taken
    · rename_i no_type
      obtain ⟨same, rfl⟩ := Prod.mk.inj taken
      obtain ⟨rfl, rfl⟩ := Piece.unknown.inj same
      exact ⟨read, no_type⟩
    · split at taken
      · cases (Prod.mk.inj taken).1
      · cases (Prod.mk.inj taken).1

/-- A piece behind an escape character that is refused is a `FieldRefusal`, or has a quantity beyond
the digit limit. -/
theorem FieldRefusal.of_taken (taken : takeField behind = (piece, rest))
    (refused : piece.Refused place failure) (inside : failure.cause.concernsField = true) :
    FieldRefusal place behind failure.cause.family failure.cause.message failure := by
  have whole := text_takeField behind
  rw [taken] at whole
  have longest := Flags.longestIn_read behind
  cases refused with
  | run narrow wide => exact absurd taken (takeField_ne_run _ _ _)
  | dangling => exact absurd taken (takeField_ne_dangling _ _)
  | long unreadable => contradiction
  | field readable faulty =>
      rw [← List.tail_eq_of_cons_eq whole]
      exact .invalid (endsBefore_of_takeField taken) (Spelling.isReadable_iff.mp readable) faulty
  | cutOff flags =>
      have read := read_of_cutOff taken
      have own := Flags.text_read behind
      rw [read] at longest own
      rw [← own, List.append_nil]
      exact .cutOff longest.all_digits
  | unknown flags letter =>
      obtain ⟨read, no_type⟩ := read_of_unknown taken
      have own := Flags.text_read behind
      rw [read] at longest own
      rw [← own] at longest ⊢
      exact .unknown longest no_type

/-- A piece that is refused with a cause about a field starts with an escape character. -/
theorem Piece.Refused.exists_taken {text : List Char} (refused : piece.Refused place failure)
    (inside : failure.cause.concernsField = true) (taken : takePiece? text = some (piece, rest)) :
    ∃ next behind, text = escapeCharacter :: next :: behind ∧ next ≠ escapeCharacter ∧
      takeField (next :: behind) = (piece, rest) := by
  obtain ⟨_, _, run, _⟩ | ⟨dangling, _⟩ | field := takePiece?_cases taken
  · rw [run] at refused
    generalize start : Piece.run _ = own at refused
    cases refused with
    | run | long | dangling => contradiction
    | field | cutOff | unknown => cases start
  · rw [dangling] at refused
    cases refused
    contradiction
  · exact field

/-- The cause of a `FieldRefusal` is about a field. -/
theorem FieldRefusal.concernsField (refusal : FieldRefusal place behind family message failure) :
    failure.cause.concernsField = true := by
  cases refusal <;> rfl

/-- An escape character that is not written twice starts a field. -/
private theorem takePiece?_escape {next : Char} (plain : next ≠ escapeCharacter) :
    takePiece? (escapeCharacter :: next :: behind) = some (takeField (next :: behind)) := by
  have run : takeRun (escapeCharacter :: next :: behind) =
      ([], escapeCharacter :: next :: behind) := by
    simp [takeRun, plain]
  rw [takePiece?, run]

/-- `takeField` reads a `FieldRefusal` as a piece that is refused with its failure. -/
theorem FieldRefusal.exists_taken (refusal : FieldRefusal place behind family message failure) :
    ∃ piece rest, takeField behind = (piece, rest) ∧ piece.Refused place failure := by
  cases refusal with
  | @cutOff flags all_digits =>
      have longest : flags.LongestIn (flags.text ++ []) :=
        ⟨all_digits, List.prefix_append _ _, fun _ _ front => by simpa using front.length_le⟩
      obtain ⟨own, read, _⟩ := longest.read
      rw [List.append_nil] at read
      exact ⟨.cutOff own, [], by rw [takeField, read], .cutOff own⟩
  | @unknown flags letter rest longest no_type =>
      obtain ⟨own, read, same⟩ := longest.read
      refine ⟨.unknown own letter, rest, ?_, ?_⟩
      · rw [takeField, read]
        simp only [no_type]
      · rw [← same]
        exact .unknown own letter
  | invalid ends readable faulty =>
      exact ⟨_, _, takeField_text ends, .field (Spelling.isReadable_iff.mpr readable) faulty⟩

end Taking

/-- `joinRun` changes the first piece only. -/
private theorem joinRun_append {others : List Piece}
    (no_run : ∀ characters rest, others ≠ .run characters :: rest) (character : Char)
    (front : List Piece) :
    Piece.joinRun character (front ++ others) = Piece.joinRun character front ++ others := by
  cases front with
  | cons piece front => cases piece <;> rfl
  | nil =>
      cases others with
      | nil => rfl
      | cons piece rest =>
          cases piece with
          | run characters => exact absurd rfl (no_run characters rest)
          | field spelling | dangling | cutOff flags | unknown flags letter => rfl

/-- The pieces of a text with a reading are the same in front of a text that starts with no run and
no fill. -/
private theorem pieces_append {text more : List Char} {tokens : List Token}
    (reads : Reads text tokens)
    (no_run : ∀ characters rest, pieces more ≠ .run characters :: rest)
    (no_fill : ∀ next, more.head? = some next → Fill.ofFlag? next = none) :
    pieces (text ++ more) = pieces text ++ pieces more := by
  induction reads with
  | nil =>
      have empty : pieces [] = [] := by rw [pieces]; rfl
      rw [empty, List.nil_append, List.nil_append]
  | literal character rest ih =>
      rw [Token.text, List.append_assoc, pieces_literal, ih, pieces_literal, joinRun_append no_run]
  | @field spelling text tokens ends rest ih =>
      have apart : spelling.EndsBefore (text ++ more) := by
        refine ends.of_heads fun next head => ?_
        cases text with
        | nil => exact .inr (no_fill next head)
        | cons own text => exact .inl head
      rw [Token.text, List.append_assoc, pieces_field apart, ih, pieces_field ends,
        List.cons_append]

namespace Format

/-- `itemsOf` fails at the first piece that is refused, if its cause is about a field. -/
private theorem itemsOf_of_refused {position : Nat} {front back : List Piece} {piece : Piece}
    {failure : Failure} (sound : ∀ other ∈ front, other.Sound)
    (refused : piece.Refused (position + (front.flatMap Piece.text).length) failure)
    (inside : failure.cause.concernsField = true) :
    (itemsOf position (front ++ piece :: back)).outcome = .error failure := by
  induction front generalizing position with
  | nil =>
      have failed := pieceItem_outcome_eq_error_iff.mpr refused
      cases refused with
      | run | long | dangling => contradiction
      | field | cutOff | unknown => exact Traced.outcome_bind_of_error failed _
  | cons first front ih =>
      obtain ⟨first_sound, front_sound⟩ := List.forall_mem_cons.mp sound
      obtain ⟨item, accepted⟩ := exists_pieceItem_of_sound first_sound position
      rw [List.flatMap_cons, List.length_append, ← Nat.add_assoc] at refused
      have others := ih front_sound refused
      rw [List.cons_append]
      unfold itemsOf
      split
      · contradiction
      · rename_i characters following same
        obtain ⟨_, next⟩ := List.cons.inj same
        -- A dangling escape character is not in the front, and its cause is none of a field.
        cases front with
        | nil =>
            obtain ⟨rfl, _⟩ := List.cons.inj next
            cases refused
            contradiction
        | cons second front =>
            obtain ⟨rfl, _⟩ := List.cons.inj next
            exact absurd (front_sound _ List.mem_cons_self) not_false
      · rename_i own following _ same
        obtain ⟨rfl, rfl⟩ := List.cons.inj same
        rw [Traced.outcome_bind_of_ok accepted, Traced.outcome_bind_of_error others]

variable {text : String} {failure : Failure}

/-- A text that is refused with a cause about a field consists of a format and a `FieldRefusal`, and
its events are those of the format. -/
private theorem compile_stops_at_field (refused : (compile (.text text)).outcome = .error failure)
    (inside : failure.cause.concernsField = true) :
    ∃ (front : String) (tokens : List Token) (next : Char) (behind : List Char),
      text.toList = front.toList ++ escapeCharacter :: next :: behind ∧
      next ≠ escapeCharacter ∧
      FieldRefusal front.length (next :: behind) failure.cause.family failure.cause.message
        failure ∧
      Reads front.toList tokens ∧ (∀ token ∈ tokens, token.Sound) ∧
      (compile (.text text)).events = tokens.filterMap Token.event? := by
  have not_dangling : failure.cause ≠ .danglingEscape := fun same => by
    rw [same] at inside
    contradiction
  obtain ⟨front, tokens, piece, rest, whole, reads, sound, taken, _, failed, told⟩ :=
    compile_stops_behind refused not_dangling
  obtain ⟨next, behind, start, plain, field⟩ := failed.exists_taken inside taken
  rw [start] at whole
  exact ⟨front, tokens, next, behind, whole, plain, .of_taken field failed inside, reads, sound,
    told⟩

/-- A text is refused with a cause about a field exactly when it consists of a format and a
`FieldRefusal`. -/
theorem compile_refuses_field_iff :
    ((compile (.text text)).outcome = .error failure ∧ failure.cause.concernsField = true) ↔
      ∃ (front : String) (tokens : List Token) (next : Char) (behind : List Char),
        text.toList = front.toList ++ escapeCharacter :: next :: behind ∧
        next ≠ escapeCharacter ∧
        FieldRefusal front.length (next :: behind) failure.cause.family failure.cause.message
          failure ∧
        Reads front.toList tokens ∧ (∀ token ∈ tokens, token.Sound) := by
  apply Iff.intro
  · intro given
    obtain ⟨front, tokens, next, behind, whole, plain, refusal, reads, sound, _⟩ :=
      compile_stops_at_field given.1 given.2
    exact ⟨front, tokens, next, behind, whole, plain, refusal, reads, sound⟩
  · intro parts
    obtain ⟨front, tokens, next, behind, whole, plain, refusal, reads, sound⟩ := parts
    obtain ⟨piece, rest, taken, refused⟩ := refusal.exists_taken
    have field : pieces (escapeCharacter :: next :: behind) = piece :: pieces rest :=
      pieces_of_taken (by rw [takePiece?_escape plain, taken])
    have no_run : ∀ characters others,
        pieces (escapeCharacter :: next :: behind) ≠ .run characters :: others := by
      intro characters others same
      rw [field] at same
      obtain ⟨rfl, _⟩ := List.cons.inj same
      exact takeField_ne_run _ _ _ taken
    have no_fill : ∀ first, (escapeCharacter :: next :: behind).head? = some first →
        Fill.ofFlag? first = none := by
      rintro first head
      obtain rfl := Option.some.inj head
      rfl
    have apart := pieces_append reads no_run no_fill
    rw [← whole, field] at apart
    have place : (0 : Nat) + ((pieces front.toList).flatMap Piece.text).length = front.length := by
      rw [flatMap_text_pieces, String.length_toList, Nat.zero_add]
    rw [← place] at refused
    have failed := @itemsOf_of_refused 0 _ (pieces rest) _ _ (reads.sound_iff.mpr sound) refused
      refusal.concernsField
    rw [← apart] at failed
    exact ⟨Traced.outcome_bind_of_error failed _, refusal.concernsField⟩

/-- A refusal of a text about a field is at its place: for a cut-off field or one that breaks a rule
that of its escape character, for an unknown type that of the letter, which stands behind the
longest flags and which the message quotes. The text in front of the field is a format, and the
events are those of compiling this format, one for each of its fields, in order. An escape character
at the end of a text is reported at the last place of the text. -/
theorem compile_reports_place (refused : (compile (.text text)).outcome = .error failure) :
    (failure.cause = .danglingEscape →
      text.toList.getLast? = some escapeCharacter ∧ failure.position = some (text.length - 1) ∧
        failure.cause.family = .malformedFormat ∧
        failure.cause.message = "dangling '%' at the end of the format") ∧
    (failure.cause.concernsField = true →
      ∃ (front : String) (tokens : List Token) (next : Char) (behind : List Char),
        text.toList = front.toList ++ escapeCharacter :: next :: behind ∧
        next ≠ escapeCharacter ∧
        FieldRefusal front.length (next :: behind) failure.cause.family failure.cause.message
          failure ∧
        Reads front.toList tokens ∧
        (compile (.text front)).outcome = .ok ⟨.text front, Token.items 0 tokens⟩ ∧
        (compile (.text front)).events = tokens.filterMap Token.event? ∧
        (compile (.text text)).events = (compile (.text front)).events) := by
  apply And.intro
  · intro dangling
    obtain ⟨front, whole, place⟩ := compile_dangling refused dangling
    refine ⟨by rw [whole, List.getLast?_concat], ?_, by rw [dangling]; rfl, by rw [dangling]; rfl⟩
    rw [place, ← String.length_toList, whole, List.length_append, List.length_singleton,
      Nat.add_sub_cancel]
  · intro inside
    obtain ⟨front, tokens, next, behind, whole, plain, refusal, reads, sound, told⟩ :=
      compile_stops_at_field refused inside
    have front_told := compile_events_of_reads reads sound
    exact ⟨front, tokens, next, behind, whole, plain, refusal, reads, reads.compile sound,
      front_told, told.trans front_told.symm⟩

/-- A letter that stands for no type, behind a field, an escape and two flags. -/
theorem compile_reports_place_letter :
    (compile (.text "%w%%%4ax")).outcome = .error (.placed (.unknownKind 'x') 7) ∧
      ∃ (front : String) (tokens : List Token) (next : Char) (behind : List Char),
        "%w%%%4ax".toList = front.toList ++ escapeCharacter :: next :: behind ∧
        next ≠ escapeCharacter ∧
        FieldRefusal front.length (next :: behind) .unknownKind "unknown data type 'x'"
          (.placed (.unknownKind 'x') 7) ∧
        Reads front.toList tokens ∧
        (compile (.text front)).outcome = .ok ⟨.text front, Token.items 0 tokens⟩ ∧
        (compile (.text front)).events = tokens.filterMap Token.event? ∧
        (compile (.text "%w%%%4ax")).events = (compile (.text front)).events := by
  have refused : (compile (.text "%w%%%4ax")).outcome = .error (.placed (.unknownKind 'x') 7) :=
    @compile_error_of_piecesWithin _ 8 _ (by decide) (by decide +kernel)
  exact ⟨refused, (compile_reports_place refused).2 rfl⟩

end Format

end BitRecord
