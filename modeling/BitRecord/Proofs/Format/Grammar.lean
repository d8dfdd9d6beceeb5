/-
# The grammar of formats

A format text is a sequence of tokens: literal characters, the escape character
written twice, and fields. `Reads` is the grammar; it says nothing about how a
reader finds the tokens. A text has at most one reading, and it is accepted
exactly when it has one and each of its tokens is sound. The items are then the
fields one by one, and the literal characters between two fields as one literal.
-/

import BitRecord.Proofs.Format.Items

namespace BitRecord

/-- The smallest parts of a format text. -/
inductive Token where
  /-- A literal character. -/
  | literal (character : Char)
  /-- A field. -/
  | field (spelling : Spelling)
  deriving DecidableEq, Repr

/-- Whether the quantity consists of decimal digits. -/
def Flags.AllDigits (flags : Flags) : Prop :=
  ∀ digit ∈ flags.digits, isQuantityDigit digit = true

/-- Whether a field ends where a text follows: its quantity takes all digits there are, it has at
most one fill, and a fill right behind its letter is its own. -/
structure Spelling.EndsBefore (spelling : Spelling) (text : List Char) : Prop where
  all_digits : ((spelling.text ++ text).drop
    (markText pointerFlag spelling.flags.pointer).length).takeWhile isQuantityDigit =
      spelling.flags.digits
  one_fill : spelling.flags.fill = none ∨ spelling.lateFill = none
  own_fill : spelling.flags.fill = none → spelling.lateFill = none →
    ∀ next, text.head? = some next → Fill.ofFlag? next = none

/-- The quantity of a field that ends somewhere consists of decimal digits. -/
theorem Spelling.EndsBefore.allDigits {spelling : Spelling} {text : List Char}
    (ends : spelling.EndsBefore text) : spelling.flags.AllDigits := by
  rw [Flags.AllDigits, ← ends.all_digits]
  exact List.all_eq_true.mp List.all_takeWhile

namespace Token

/-- The text of a token. -/
def text : Token → List Char
  | literal character => Piece.literalText character
  | field spelling => (Piece.field spelling).text

/-- Whether a token is accepted in a format: a literal character fits in a byte, and a field is
valid and has at most `DigitLimit.digits` quantity digits. -/
def Sound : Token → Prop
  | literal character => character.toNat < 256
  | field spelling => spelling.flags.digits.length ≤ DigitLimit.digits ∧ spelling.field.Valid

/-- A literal byte in front of items becomes part of the literal that they start with, if any. -/
def joinLiteral (position : Nat) (byte : UInt8) : List Item → List Item
  | ⟨_, .literal data⟩ :: items => ⟨position, .literal (byte :: data)⟩ :: items
  | items => ⟨position, .literal [byte]⟩ :: items

/-- The items of tokens, the first of which has the given position. -/
def items : (position : Nat) → List Token → List Item
  | _, [] => []
  | position, literal character :: tokens =>
      joinLiteral position (Piece.byte character)
        (items (position + (literal character).text.length) tokens)
  | position, field spelling :: tokens =>
      ⟨position, .field spelling.field⟩
        :: items (position + (field spelling).text.length) tokens

end Token

/-- The readings of a text: literal characters as they stand, the escape character written twice,
and fields. -/
inductive Reads : (text : List Char) → List Token → Prop
  | nil : Reads [] []
  | literal (character : Char) {text : List Char} {tokens : List Token}
      (rest : Reads text tokens) :
      Reads ((Token.literal character).text ++ text) (.literal character :: tokens)
  | field {spelling : Spelling} {text : List Char} {tokens : List Token}
      (ends : spelling.EndsBefore text) (rest : Reads text tokens) :
      Reads ((Token.field spelling).text ++ text) (.field spelling :: tokens)

/-- The texts of the tokens of a reading, put together, are the text. -/
theorem Reads.flatMap_text {text : List Char} {tokens : List Token} (reads : Reads text tokens) :
    tokens.flatMap Token.text = text := by
  induction reads with
  | nil => rfl
  | literal character rest ih => rw [List.flatMap_cons, ih]
  | field ends rest ih => rw [List.flatMap_cons, ih]

/-- A text that starts with one of some characters. -/
private def StartsIn (characters : List Char) (text : List Char) : Prop :=
  ∃ first ∈ characters, ∃ rest, text = first :: rest

section Scanning

variable {characters text : List Char}

private theorem takeMark_of_startsIn {mark : Char} (starts : StartsIn characters text)
    (absent : mark ∉ characters) : takeMark mark text = (false, text) := by
  obtain ⟨first, member, rest, rfl⟩ := starts
  have other : first ≠ mark := fun same => absent (same ▸ member)
  rw [takeMark, if_neg other]

private theorem takeFlag?_of_startsIn {α : Type} {meaning : Char → Option α}
    (starts : StartsIn characters text)
    (meaningless : characters.filterMap meaning = []) :
    takeFlag? meaning text = (none, text) := by
  obtain ⟨first, member, rest, rfl⟩ := starts
  rw [takeFlag?, List.filterMap_eq_nil_iff.mp meaningless first member]

private theorem startsIn_letter (kind : Kind) (rest : List Char) :
    StartsIn ['i', 'y', 'w', 'd', 'q', 's'] (kind.letter :: rest) := by
  refine ⟨kind.letter, ?_, rest, rfl⟩
  cases kind <;> decide

private theorem startsIn_fill (fill : Option Fill) (kind : Kind) (rest : List Char) :
    StartsIn ['0', '1', 'r', 'i', 'y', 'w', 'd', 'q', 's']
      ((fill.map Fill.flag).toList ++ kind.letter :: rest) := by
  cases fill with
  | none =>
      obtain ⟨first, member, following, text⟩ := startsIn_letter kind rest
      exact ⟨first, List.mem_append_right ['0', '1', 'r'] member, following, text⟩
  | some fill =>
      refine ⟨fill.flag, ?_, _, rfl⟩
      cases fill <;> decide

private theorem startsIn_order (order : Order) (fill : Option Fill) (kind : Kind)
    (rest : List Char) :
    StartsIn ['l', 'b', '0', '1', 'r', 'i', 'y', 'w', 'd', 'q', 's']
      (order.flag ++ ((fill.map Fill.flag).toList ++ kind.letter :: rest)) := by
  cases order with
  | native =>
      obtain ⟨first, member, following, text⟩ := startsIn_fill fill kind rest
      exact ⟨first, List.mem_append_right ['l', 'b'] member, following, text⟩
  | little | big => exact ⟨_, by decide, _, rfl⟩

private theorem startsIn_aligned (aligned : Bool) (order : Order) (fill : Option Fill) (kind : Kind)
    (rest : List Char) :
    StartsIn ['a', 'l', 'b', '0', '1', 'r', 'i', 'y', 'w', 'd', 'q', 's']
      (markText alignFlag aligned
        ++ (order.flag ++ ((fill.map Fill.flag).toList ++ kind.letter :: rest))) := by
  cases aligned with
  | true => exact ⟨_, by decide, _, rfl⟩
  | false =>
      obtain ⟨first, member, following, text⟩ := startsIn_order order fill kind rest
      exact ⟨first, List.mem_append_right ['a'] member, following, text⟩

/-- `Flags.read` reads back the flags in front of a letter when their quantity takes all digits
there are. -/
theorem Flags.read_text {flags : Flags} {kind : Kind} {rest : List Char}
    (all_digits : ((flags.text ++ kind.letter :: rest).drop
      (markText pointerFlag flags.pointer).length).takeWhile isQuantityDigit = flags.digits) :
    Flags.read (flags.text ++ kind.letter :: rest) = (flags, kind.letter :: rest) := by
  obtain ⟨pointer, digits, aligned, order, fill⟩ := flags
  let filled := (fill.map Fill.flag).toList ++ kind.letter :: rest
  let ordered := order.flag ++ filled
  let behind := markText alignFlag aligned ++ ordered
  have whole : Flags.text ⟨pointer, digits, aligned, order, fill⟩ ++ kind.letter :: rest =
      markText pointerFlag pointer ++ (digits ++ behind) := by
    simp [Flags.text, filled, ordered, behind]
  rw [whole] at all_digits ⊢
  rw [List.drop_left] at all_digits
  have pointer_read : takeMark pointerFlag (markText pointerFlag pointer ++ (digits ++ behind)) =
      (pointer, digits ++ behind) := by
    cases pointer with
    | true => rfl
    | false =>
        cases digits with
        | nil =>
            exact takeMark_of_startsIn (startsIn_aligned aligned order fill kind rest) (by decide)
        | cons digit digits =>
            have other : digit ≠ pointerFlag := by
              rintro rfl
              rw [List.cons_append, List.takeWhile_cons_of_neg (by decide)] at all_digits
              contradiction
            exact if_neg other
  have digits_read : (digits ++ behind).dropWhile isQuantityDigit = behind := by
    have parts := @List.takeWhile_append_dropWhile _ isQuantityDigit (digits ++ behind)
    rw [all_digits] at parts
    exact List.append_cancel_left parts
  have aligned_read : takeMark alignFlag behind = (aligned, ordered) := by
    cases aligned with
    | true => rfl
    | false => exact takeMark_of_startsIn (startsIn_order order fill kind rest) (by decide)
  have order_read : takeFlag? Order.ofFlag? ordered =
      (if order = .native then none else some order, filled) := by
    cases order with
    | native => exact takeFlag?_of_startsIn (startsIn_fill fill kind rest) rfl
    | little | big => rfl
  have fill_read : takeFlag? Fill.ofFlag? filled = (fill, kind.letter :: rest) := by
    cases fill with
    | none => exact takeFlag?_of_startsIn (startsIn_letter kind rest) rfl
    | some fill => cases fill <;> rfl
  have order_kept : (if order = .native then none else some order).getD .native = order := by
    cases order <;> rfl
  simp only [Flags.read, pointer_read, all_digits, digits_read, aligned_read, order_read, fill_read,
    order_kept]

/-- `takeField` reads back a field where it ends. -/
theorem takeField_text {spelling : Spelling} (ends : spelling.EndsBefore text) :
    takeField (spelling.text ++ text) = (.field spelling, text) := by
  obtain ⟨flags, kind, lateFill⟩ := spelling
  obtain ⟨all_digits, one_fill, own_fill⟩ := ends
  have whole : Spelling.text ⟨flags, kind, lateFill⟩ ++ text =
      flags.text ++ kind.letter :: ((lateFill.map Fill.flag).toList ++ text) := by
    simp [Spelling.text]
  have known : Kind.ofLetter? kind.letter = some kind := by
    cases kind <;> rfl
  rw [whole] at all_digits ⊢
  rw [takeField, Flags.read_text all_digits]
  simp only [known]
  by_cases early : flags.fill.isSome = true
  · obtain rfl : lateFill = none := by
      rcases one_fill with missing | missing
      · rw [missing] at early
        contradiction
      · exact missing
    rw [if_pos early]
    rfl
  · have missing : flags.fill = none := Option.not_isSome_iff_eq_none.mp early
    have late_read : takeFlag? Fill.ofFlag? ((lateFill.map Fill.flag).toList ++ text) =
        (lateFill, text) := by
      cases lateFill with
      | some fill => cases fill <;> rfl
      | none =>
          cases text with
          | nil => rfl
          | cons next following =>
              have none_here := own_fill missing rfl next rfl
              change takeFlag? Fill.ofFlag? (next :: following) = _
              rw [takeFlag?, none_here]
    rw [if_neg early, late_read]

/-- `Flags.read` takes all digits behind the pointer flag. -/
private theorem Flags.digits_read (text : List Char) :
    (text.drop (markText pointerFlag (Flags.read text).1.pointer).length).takeWhile
      isQuantityDigit = (Flags.read text).1.digits := by
  have behind :=
    calc text.drop (markText pointerFlag (takeMark pointerFlag text).1).length
      _ = (markText pointerFlag (takeMark pointerFlag text).1 ++
            (takeMark pointerFlag text).2).drop
            (markText pointerFlag (takeMark pointerFlag text).1).length := by
          rw [text_takeMark]
      _ = (takeMark pointerFlag text).2 := List.drop_left
  exact congrArg (List.takeWhile isQuantityDigit) behind

/-- A character that `takeFlag?` leaves has no meaning. -/
private theorem head?_of_takeFlag?_eq_none {α : Type} {meaning : Char → Option α}
    {text rest : List Char} (taken : takeFlag? meaning text = (none, rest)) :
    ∀ next, rest.head? = some next → meaning next = none := by
  intro next head
  cases text with
  | nil =>
      obtain rfl : [] = rest := (Prod.mk.inj taken).2
      contradiction
  | cons first following =>
      rw [takeFlag?] at taken
      cases known : meaning first with
      | some value =>
          rw [known] at taken
          cases (Prod.mk.inj taken).1
      | none =>
          rw [known] at taken
          obtain rfl : first :: following = rest := (Prod.mk.inj taken).2
          obtain rfl : first = next := Option.some.inj head
          exact known

/-- A field that `takeField` reads ends where the rest starts. -/
theorem endsBefore_of_takeField {spelling : Spelling} {rest : List Char}
    (taken : takeField text = (.field spelling, rest)) : spelling.EndsBefore rest := by
  have whole := text_takeField text
  rw [taken] at whole
  have text_eq : spelling.text ++ rest = text := List.tail_eq_of_cons_eq whole
  have all_digits := Flags.digits_read text
  rw [takeField] at taken
  split at taken
  · cases (Prod.mk.inj taken).1
  · rename_i flags letter behind read
    rw [read, ← text_eq] at all_digits
    split at taken
    · cases (Prod.mk.inj taken).1
    · split at taken
      · rename_i early
        obtain ⟨same, rfl⟩ := Prod.mk.inj taken
        obtain rfl := Piece.field.inj same
        exact ⟨all_digits, .inr rfl, fun missing =>
          absurd early (Option.not_isSome_iff_eq_none.mpr missing)⟩
      · rename_i late
        have missing : flags.fill = none := Option.not_isSome_iff_eq_none.mp late
        obtain ⟨same, rfl⟩ := Prod.mk.inj taken
        obtain rfl := Piece.field.inj same
        exact ⟨all_digits, .inl missing, fun _ none_late =>
          head?_of_takeFlag?_eq_none (Prod.ext none_late rfl)⟩

end Scanning

namespace Piece

/-- The tokens of a piece. A faulty piece has none. -/
def tokens : Piece → List Token
  | run characters => characters.map .literal
  | field spelling => [.field spelling]
  | dangling | cutOff _ | unknown _ _ => []

/-- A literal character in front of pieces becomes part of the run that they start with, if any. -/
def joinRun (character : Char) : List Piece → List Piece
  | run characters :: pieces => run (character :: characters) :: pieces
  | pieces => run [character] :: pieces

theorem flatMap_tokens_joinRun (character : Char) (pieces : List Piece) :
    (joinRun character pieces).flatMap tokens = .literal character :: pieces.flatMap tokens := by
  unfold joinRun
  split <;> rfl

theorem sound_joinRun_iff {character : Char} {pieces : List Piece} :
    (∀ piece ∈ joinRun character pieces, piece.Sound) ↔
      (Token.literal character).Sound ∧ ∀ piece ∈ pieces, piece.Sound := by
  unfold joinRun
  split
  · simp only [List.forall_mem_cons, Sound, Token.Sound, and_assoc]
  · simp only [List.forall_mem_cons, Sound, Token.Sound, List.not_mem_nil, false_implies,
      implies_true, and_true]

/-- `joinRun` on pieces is `joinLiteral` on their items. -/
theorem items_joinRun {pieces : List Piece} (sound : ∀ piece ∈ pieces, piece.Sound)
    (position : Nat) (character : Char) :
    items position (joinRun character pieces) =
      Token.joinLiteral position (byte character)
        (items (position + (literalText character).length) pieces) := by
  cases pieces with
  | nil => rfl
  | cons piece rest =>
      cases piece with
      | run characters =>
          rw [joinRun, items, items, text, List.flatMap_cons, List.length_append, ← Nat.add_assoc]
          rfl
      | field spelling =>
          rw [joinRun, items, text, List.flatMap_singleton]
          · rfl
          · intro characters following same
            cases (List.cons.inj same).1
      | dangling | cutOff flags | unknown flags letter =>
          exact absurd (sound _ List.mem_cons_self) not_false

end Piece

section Pieces

variable {text rest : List Char} {piece : Piece}

private theorem takeRun_literal (character : Char) (text : List Char) :
    takeRun (Piece.literalText character ++ text) =
      (character :: (takeRun text).1, (takeRun text).2) := by
  rw [Piece.literalText]
  by_cases escape : character = escapeCharacter
  · rw [if_pos escape, escape]
    simp [takeRun]
  · rw [if_neg escape, List.singleton_append, takeRun.eq_def]
    exact if_neg escape

/-- `takeField` gives no run. -/
theorem takeField_ne_run (text characters rest : List Char) :
    takeField text ≠ (.run characters, rest) := by
  intro taken
  unfold takeField at taken
  repeat' split at taken
  all_goals cases (Prod.mk.inj taken).1

/-- `takePiece?` gives a run only where `takeRun` finds literal characters. -/
theorem takePiece?_ne_run (empty : takeRun text = ([], text)) (characters : List Char) :
    takePiece? text ≠ some (.run characters, rest) := by
  intro taken
  rw [takePiece?, empty] at taken
  cases text with
  | nil => contradiction
  | cons first following =>
      cases following with
      | nil => cases (Prod.mk.inj (Option.some.inj taken)).1
      | cons second following => exact takeField_ne_run _ _ _ (Option.some.inj taken)

/-- A field that `takePiece?` gives ends where the rest starts. -/
theorem endsBefore_of_takePiece? {spelling : Spelling}
    (taken : takePiece? text = some (.field spelling, rest)) : spelling.EndsBefore rest := by
  unfold takePiece? at taken
  split at taken
  · cases (Prod.mk.inj (Option.some.inj taken)).1
  · contradiction
  · cases (Prod.mk.inj (Option.some.inj taken)).1
  · exact endsBefore_of_takeField (Option.some.inj taken)

/-- `pieces` joins a literal character to the run that the text starts with. -/
theorem pieces_literal (character : Char) (text : List Char) :
    pieces (Piece.literalText character ++ text) = Piece.joinRun character (pieces text) := by
  have taken : takePiece? (Piece.literalText character ++ text) =
      some (.run (character :: (takeRun text).1), (takeRun text).2) := by
    rw [takePiece?, takeRun_literal]
  rw [pieces_of_taken taken]
  cases run : (takeRun text).1 with
  | cons first characters =>
      have next : takePiece? text = some (.run (first :: characters), (takeRun text).2) := by
        rw [takePiece?, show takeRun text = (first :: characters, (takeRun text).2) from
          Prod.ext run rfl]
      rw [pieces_of_taken next, Piece.joinRun]
  | nil =>
      have unchanged : (takeRun text).2 = text := by
        have whole := flatMap_text_takeRun text
        rwa [run] at whole
      have empty : takeRun text = ([], text) := Prod.ext run unchanged
      rw [unchanged]
      cases next : takePiece? text with
      | none =>
          obtain rfl := takePiece?_eq_none_iff.mp next
          rw [pieces]
          rfl
      | some first =>
          obtain ⟨piece, rest⟩ := first
          rw [pieces_of_taken next]
          cases piece with
          | run characters => exact absurd next (takePiece?_ne_run empty characters)
          | field spelling | dangling | cutOff flags | unknown flags letter => rfl

/-- `pieces` of a field in front of a text where it ends are the field and the pieces of the
text. -/
theorem pieces_field {spelling : Spelling} (ends : spelling.EndsBefore text) :
    pieces ((Piece.field spelling).text ++ text) = .field spelling :: pieces text := by
  obtain ⟨first, following, start, plain⟩ : ∃ first following,
      spelling.text ++ text = first :: following ∧ first ≠ escapeCharacter := by
    cases start : spelling.text ++ text with
    | nil => simp [Spelling.text] at start
    | cons first following =>
        refine ⟨first, following, rfl, ?_⟩
        rintro rfl
        -- An escape character there would be read as the letter of the field.
        have taken := takeField_text ends
        rw [start] at taken
        have unknown : takeField (escapeCharacter :: following) =
            (.unknown ⟨false, [], false, .native, none⟩ escapeCharacter, following) := rfl
        rw [unknown] at taken
        cases (Prod.mk.inj taken).1
  have run : takeRun ((Piece.field spelling).text ++ text) =
      ([], escapeCharacter :: first :: following) := by
    rw [Piece.text, List.cons_append, start]
    simp [takeRun, plain]
  apply pieces_of_taken
  rw [takePiece?, run]
  change some (takeField (first :: following)) = _
  rw [← start, takeField_text ends]

end Pieces

namespace Reads

variable {text : List Char} {tokens first second : List Token}

/-- The tokens of a reading are those of the pieces. -/
theorem tokens_eq (reads : Reads text tokens) : tokens = (pieces text).flatMap Piece.tokens := by
  induction reads with
  | nil =>
      rw [pieces]
      rfl
  | literal character rest ih =>
      rw [Token.text, pieces_literal, Piece.flatMap_tokens_joinRun, ← ih]
  | field ends rest ih =>
      rw [Token.text, pieces_field ends, List.flatMap_cons, ← ih]
      rfl

/-- A text has at most one reading. -/
theorem unique (one : Reads text first) (other : Reads text second) : first = second :=
  one.tokens_eq.trans other.tokens_eq.symm

/-- Literal characters in front of a text are read as they stand. -/
theorem literals (characters : List Char) (reads : Reads text tokens) :
    Reads (characters.flatMap Piece.literalText ++ text)
      (characters.map .literal ++ tokens) := by
  induction characters with
  | nil => exact reads
  | cons character characters ih =>
      rw [List.flatMap_cons, List.append_assoc]
      exact .literal character ih

/-- A text whose pieces are all sound has a reading. -/
theorem of_pieces (sound : ∀ piece ∈ pieces text, piece.Sound) :
    Reads text ((pieces text).flatMap Piece.tokens) := by
  fun_induction pieces text with
  | case1 text missing =>
      rw [takePiece?_eq_none_iff.mp missing]
      exact .nil
  | case2 text piece rest taken ih =>
      have rest_reads := ih fun other member => sound other (List.mem_cons_of_mem _ member)
      have whole := text_takePiece? taken
      have piece_sound := sound piece List.mem_cons_self
      rw [List.flatMap_cons, ← whole]
      cases piece with
      | run characters => exact literals characters rest_reads
      | field spelling =>
          exact .field (endsBefore_of_takePiece? taken) rest_reads
      | dangling | cutOff flags | unknown flags letter => exact absurd piece_sound not_false

/-- The pieces of a text are sound exactly when its tokens are. -/
theorem sound_iff (reads : Reads text tokens) :
    (∀ piece ∈ pieces text, piece.Sound) ↔ ∀ token ∈ tokens, token.Sound := by
  induction reads with
  | nil =>
      rw [pieces]
      exact ⟨fun _ => List.forall_mem_nil _, fun _ => List.forall_mem_nil _⟩
  | literal character rest ih =>
      rw [Token.text, pieces_literal, Piece.sound_joinRun_iff, ih, List.forall_mem_cons]
  | field ends rest ih =>
      rw [Token.text, pieces_field ends, List.forall_mem_cons, ih, List.forall_mem_cons]
      rfl

/-- The items of the pieces of a text are those of its tokens. -/
theorem items_eq (reads : Reads text tokens) (sound : ∀ piece ∈ pieces text, piece.Sound)
    (position : Nat) : Piece.items position (pieces text) = Token.items position tokens := by
  induction reads generalizing position with
  | nil =>
      rw [pieces]
      rfl
  | literal character rest ih =>
      rw [Token.text, pieces_literal] at sound ⊢
      have rest_sound := (Piece.sound_joinRun_iff.mp sound).2
      rw [Piece.items_joinRun rest_sound, Token.items, ih rest_sound]
      rfl
  | field ends rest ih =>
      rw [Token.text, pieces_field ends] at sound ⊢
      rw [Piece.items, Token.items, ih (List.forall_mem_cons.mp sound).2]
      rfl

/-- A text with a reading of sound tokens is accepted. -/
theorem compile {text : String} {tokens : List Token} (reads : Reads text.toList tokens)
    (sound : ∀ token ∈ tokens, token.Sound) :
    (Format.compile (.text text)).outcome = .ok ⟨.text text, Token.items 0 tokens⟩ := by
  have pieces_sound := reads.sound_iff.mpr sound
  exact Format.compile_outcome_eq_ok_iff.mpr
    ⟨_, rfl, pieces_sound, by rw [reads.items_eq pieces_sound]⟩

/-- A text with one field is refused with `longQuantity`, without a position, when the quantity has
too many digits. -/
theorem compile_long {text : String} {spelling : Spelling}
    (reads : Reads text.toList [.field spelling])
    (long : DigitLimit.digits < spelling.flags.digits.length) :
    (Format.compile (.text text)).outcome =
      .error (.unplaced (.longQuantity spelling.flags.digits.length)) := by
  have unreadable : spelling.isReadable = false := DigitLimit.canRead_eq_false_iff.mpr long
  have only : pieces text.toList = [.field spelling] := by
    generalize text.toList = text at reads
    cases reads with
    | field ends rest =>
        rw [Token.text, pieces_field ends]
        cases rest
        rw [pieces]
        rfl
  have refused : (Format.itemsOf 0 (pieces text.toList)).outcome =
      .error (.unplaced (.longQuantity spelling.flags.digits.length)) := by
    rw [only]
    exact Traced.outcome_bind_of_error
        (Format.pieceItem_outcome_eq_error_iff.mpr (.long unreadable)) _
  exact Traced.outcome_bind_of_error refused _

end Reads

/-- The text of every format has a reading. -/
theorem Format.exists_reads {given : Value} {format : Format}
    (compiled : (compile given).outcome = .ok format) :
    ∃ text tokens, textOf? given = some text ∧ Reads text tokens ∧
      (∀ token ∈ tokens, token.Sound) ∧ format = ⟨given, Token.items 0 tokens⟩ := by
  obtain ⟨text, held, sound, rfl⟩ := compile_outcome_eq_ok_iff.mp compiled
  have reads := Reads.of_pieces sound
  exact ⟨text, _, held, reads, reads.sound_iff.mp sound, by rw [reads.items_eq sound]⟩

/-- A text has at most one reading, and `compile` accepts it exactly when it has one whose tokens
are sound. The items are then those of the tokens. -/
theorem Format.compile_text_iff (text : String) :
    (∀ first second, Reads text.toList first → Reads text.toList second → first = second) ∧
      ∀ format, (compile (.text text)).outcome = .ok format ↔
        ∃ tokens, Reads text.toList tokens ∧ (∀ token ∈ tokens, token.Sound) ∧
          format = ⟨.text text, Token.items 0 tokens⟩ := by
  refine ⟨fun first second one other => one.unique other, fun format => ?_⟩
  rw [compile_outcome_eq_ok_iff]
  apply Iff.intro
  · intro compiled
    obtain ⟨characters, same, sound, rfl⟩ := compiled
    obtain rfl := Option.some.inj same
    have reads := Reads.of_pieces sound
    exact ⟨_, reads, reads.sound_iff.mp sound, by rw [reads.items_eq sound]⟩
  · intro read
    obtain ⟨tokens, reads, tokens_sound, rfl⟩ := read
    have sound := reads.sound_iff.mpr tokens_sound
    exact ⟨_, rfl, sound, by rw [reads.items_eq sound]⟩

/-- Digits between the introducer and the letter of a field of bits are read as its quantity. -/
theorem Reads.bits {digits : List Char} (own : ∀ digit ∈ digits, isQuantityDigit digit = true) :
    Reads ('%' :: digits ++ ['i'])
      [.field ⟨⟨false, digits, false, .native, none⟩, .bit, none⟩] := by
  let spelling : Spelling := ⟨⟨false, digits, false, .native, none⟩, .bit, none⟩
  have whole : (Token.field spelling).text ++ [] = '%' :: digits ++ ['i'] := by
    simp [spelling, Token.text, Piece.text, Spelling.text, Flags.text, markText, Order.flag,
      Kind.letter, escapeCharacter]
  have no_digit : [Kind.bit.letter].takeWhile isQuantityDigit = [] := rfl
  have ends : spelling.EndsBefore [] :=
    { all_digits := by
        simp [spelling, Spelling.text, Flags.text, markText, Order.flag,
          List.takeWhile_append_of_pos own, no_digit]
      one_fill := .inl rfl
      own_fill := fun _ _ character head => absurd head (Option.some_ne_none character).symm }
  rw [← whole]
  exact .field ends .nil

/-- A quantity of one in 4301 digits follows the grammar and the field is valid, but `compile`
refuses it with `longQuantity`. -/
theorem Format.compile_text_iff_long :
    let digits := List.replicate 4300 '0' ++ ['1']
    let text := String.ofList ('%' :: digits ++ ['i'])
    let spelling : Spelling := ⟨⟨false, digits, false, .native, none⟩, .bit, none⟩
    Reads text.toList [.field spelling] ∧ quantityOf digits = 1 ∧ spelling.field.Valid ∧
      (compile (.text text)).outcome = .error ⟨.longQuantity 4301, none⟩ ∧
      (Cause.longQuantity 4301).family = .wrongValue := by
  intro digits text spelling
  have own (digit : Char) (member : digit ∈ digits) : isQuantityDigit digit = true := by
    rcases List.mem_append.mp member with zero | one
    · rw [List.eq_of_mem_replicate zero]
      rfl
    · rw [List.mem_singleton.mp one]
      rfl
  have reads : Reads text.toList [.field spelling] := by
    rw [String.toList_ofList]
    exact .bits own
  have length : spelling.flags.digits.length = 4301 := by
    change digits.length = 4301
    rw [List.length_append, List.length_replicate]
    rfl
  have refused := reads.compile_long (by rw [length]; decide)
  rw [length] at refused
  have one : quantityOf digits = 1 := by decide +kernel
  have sense : spelling.field.fault? = none := by decide +kernel
  exact ⟨reads, one, (Field.fault?_eq_none_iff _).mp sense, refused, rfl⟩

end BitRecord
