/-
# Where compiling stops

`Format.compile` stops at the first piece that is not sound. The pieces in front
of it are those of their own text: a field extends one character past its letter
at most, and the piece behind it starts with no fill unless the field has one. So
the text in front is a format, and the events of the text that is refused are
those of compiling that format.
-/

import BitRecord.Proofs.Format.Seam
import BitRecord.Proofs.Session.Reading

namespace BitRecord

section Pieces

variable {text rest : List Char} {piece : Piece} {front back : List Piece}

/-- A piece that is taken is a run, an escape character that ends the text, or what an escape
character starts. -/
theorem takePiece?_cases (taken : takePiece? text = some (piece, rest)) :
    (∃ first characters, piece = .run (first :: characters) ∧
        takeRun text = (first :: characters, rest)) ∨
      (piece = .dangling ∧ rest = []) ∨
      ∃ next behind, text = escapeCharacter :: next :: behind ∧ next ≠ escapeCharacter ∧
        takeField (next :: behind) = (piece, rest) := by
  have whole := flatMap_text_takeRun text
  unfold takePiece? at taken
  split at taken
  · rename_i first characters _ run
    obtain ⟨rfl, rfl⟩ := Prod.mk.inj (Option.some.inj taken)
    exact .inl ⟨first, characters, rfl, run⟩
  · contradiction
  · obtain ⟨rfl, rfl⟩ := Prod.mk.inj (Option.some.inj taken)
    exact .inr (.inl ⟨rfl, rfl⟩)
  · rename_i first behind several run
    rw [run] at whole
    obtain rfl : first :: behind = text := whole
    obtain rfl := head_takeRun (congrArg Prod.snd run)
    cases behind with
    | nil => exact (several rfl).elim
    | cons next behind =>
        refine .inr (.inr ⟨next, behind, rfl, ?_, Option.some.inj taken⟩)
        rintro rfl
        simp [takeRun] at run

/-- `takeField` gives no dangling escape character. -/
theorem takeField_ne_dangling (text rest : List Char) :
    takeField text ≠ (.dangling, rest) := by
  intro taken
  unfold takeField at taken
  repeat' split at taken
  all_goals cases (Prod.mk.inj taken).1

/-- The first of the pieces is the one that is taken. -/
theorem exists_of_pieces_eq_cons (whole : pieces text = piece :: back) :
    ∃ rest, takePiece? text = some (piece, rest) ∧ pieces rest = back := by
  cases taken : takePiece? text with
  | none =>
      rw [takePiece?_eq_none_iff.mp taken, pieces] at whole
      contradiction
  | some first =>
      obtain ⟨own, rest⟩ := first
      rw [pieces_of_taken taken] at whole
      obtain ⟨rfl, rfl⟩ := List.cons.inj whole
      exact ⟨rest, rfl, rfl⟩

/-- The last pieces of a text are the pieces of its end. -/
theorem pieces_of_append (whole : pieces text = front ++ back) :
    pieces (back.flatMap Piece.text) = back := by
  induction front generalizing text with
  | nil =>
      obtain rfl : pieces text = back := whole
      rw [flatMap_text_pieces]
  | cons piece front ih =>
      obtain ⟨rest, _, others⟩ := exists_of_pieces_eq_cons whole
      exact ih others

/-- A piece among the pieces of a text is taken where the ones in front of it end. -/
theorem exists_of_pieces_eq_append (whole : pieces text = front ++ piece :: back) :
    ∃ rest, text = front.flatMap Piece.text ++ (piece.text ++ rest) ∧
      takePiece? (piece.text ++ rest) = some (piece, rest) ∧ pieces rest = back := by
  obtain ⟨rest, taken, others⟩ := exists_of_pieces_eq_cons (pieces_of_append whole)
  have behind := text_takePiece? taken
  refine ⟨rest, ?_, ?_, others⟩
  · rw [behind, ← List.flatMap_append, ← whole, flatMap_text_pieces]
  · rw [behind, taken]

/-- Behind a run there are no literal characters. -/
private theorem takeRun_takeRun (text : List Char) :
    takeRun (takeRun text).2 = ([], (takeRun text).2) := by
  fun_induction takeRun text with
  | case1 => rfl
  | case2 following ih => exact ih
  | case3 second following plain => simp [takeRun, plain]
  | case4 => rfl
  | case5 first following plain ih => exact ih

/-- Runs are as long as can be, so no run follows another one. -/
theorem getLast?_ne_run {characters : List Char}
    (whole : pieces text = front ++ .run characters :: back) (others : List Char) :
    front.getLast? ≠ some (.run others) := by
  intro last
  obtain ⟨before, rfl⟩ := List.getLast?_eq_some_iff.mp last
  rw [List.append_assoc] at whole
  obtain ⟨rest, _, taken, others_left⟩ := exists_of_pieces_eq_append whole
  obtain ⟨behind, next, _⟩ := exists_of_pieces_eq_cons others_left
  obtain ⟨_, _, _, run⟩ | ⟨dangling, _⟩ | ⟨_, _, _, _, field⟩ := takePiece?_cases taken
  · have stopped := takeRun_takeRun ((Piece.run others).text ++ rest)
    rw [run] at stopped
    exact takePiece?_ne_run stopped characters next
  · contradiction
  · exact takeField_ne_run _ _ _ field

end Pieces

namespace Piece

/-- The tokens of sound pieces are sound. -/
theorem sound_of_mem_flatMap_tokens {pieces : List Piece} (sound : ∀ piece ∈ pieces, piece.Sound) :
    ∀ token ∈ pieces.flatMap tokens, token.Sound := by
  intro token member
  obtain ⟨piece, piece_member, token_member⟩ := List.mem_flatMap.mp member
  have piece_sound := sound piece piece_member
  cases piece with
  | run characters =>
      obtain ⟨character, character_member, rfl⟩ := List.mem_map.mp token_member
      exact piece_sound character character_member
  | field spelling =>
      obtain rfl := List.mem_singleton.mp token_member
      exact piece_sound
  | dangling | cutOff flags | unknown flags letter => contradiction

/-- Pieces end in a literal character only when the last one is a run. -/
theorem getLast?_flatMap_tokens {pieces : List Piece} (sound : ∀ piece ∈ pieces, piece.Sound)
    (no_run : ∀ characters, pieces.getLast? ≠ some (.run characters)) (character : Char) :
    (pieces.flatMap tokens).getLast? ≠ some (.literal character) := by
  intro last
  obtain rfl | ⟨front, piece, whole⟩ := List.eq_nil_or_concat pieces
  · contradiction
  · rw [List.concat_eq_append] at whole
    subst whole
    have piece_sound := sound piece (List.mem_append_right _ (List.mem_singleton_self piece))
    cases piece with
    | run characters => exact no_run characters List.getLast?_concat
    | field spelling =>
        rw [List.flatMap_append, List.flatMap_singleton, tokens, List.getLast?_concat] at last
        cases Option.some.inj last
    | dangling | cutOff flags | unknown flags letter => contradiction

end Piece

/-- The `compiled` event of a token, if it is a field. -/
def Token.event? : Token → Option Event
  | literal _ => none
  | field spelling => some (.compiled spelling.field (Piece.field spelling).text)

/-- The `compiled` events of pieces are those of their tokens. -/
theorem Piece.filterMap_event?_tokens (pieces : List Piece) :
    (pieces.flatMap tokens).filterMap Token.event? = pieces.filterMap event? := by
  induction pieces with
  | nil => rfl
  | cons piece pieces ih =>
      rw [List.flatMap_cons, List.filterMap_append, ih, List.filterMap_cons]
      cases piece with
      | run characters =>
          have silent : (characters.map Token.literal).filterMap Token.event? = [] := by
            simp [List.filterMap_map, Token.event?, Function.comp_def]
          exact congrArg (· ++ _) silent
      | field spelling => rfl
      | dangling | cutOff flags | unknown flags letter => rfl

/-- A field that ends before a text ends before every other one that starts like it or with no
fill. -/
theorem Spelling.EndsBefore.of_heads {spelling : Spelling} {text other : List Char}
    (ends : spelling.EndsBefore text)
    (heads : ∀ next, other.head? = some next →
      text.head? = some next ∨ Fill.ofFlag? next = none) : spelling.EndsBefore other := by
  refine ends.of_head? fun unfilled next head => ?_
  obtain ⟨early, late⟩ := spelling.fill_eq_none_iff.mp unfilled
  obtain same | no_fill := heads next head
  · exact ends.own_fill early late next same
  · exact no_fill

/-- The texts of sound pieces at the front of a text have the tokens of these pieces as a
reading. -/
theorem Reads.of_front {text : List Char} {front back : List Piece}
    (whole : pieces text = front ++ back) (sound : ∀ piece ∈ front, piece.Sound) :
    Reads (front.flatMap Piece.text) (front.flatMap Piece.tokens) := by
  induction front generalizing text with
  | nil => exact .nil
  | cons piece front ih =>
      obtain ⟨piece_sound, front_sound⟩ := List.forall_mem_cons.mp sound
      obtain ⟨rest, taken, others⟩ := exists_of_pieces_eq_cons whole
      have others : pieces rest = front ++ back := others
      have rest_reads := ih others front_sound
      rw [List.flatMap_cons, List.flatMap_cons]
      cases piece with
      | run characters => exact literals characters rest_reads
      | field spelling =>
          have same : front.flatMap Piece.text ++ back.flatMap Piece.text = rest := by
            rw [← List.flatMap_append, ← others, flatMap_text_pieces]
          refine .field ((endsBefore_of_takePiece? taken).of_heads fun next head => .inl ?_)
            rest_reads
          rw [← same, List.head?_append, head, Option.some_or]
      | dangling | cutOff flags | unknown flags letter => exact absurd piece_sound not_false

namespace Format

/-- The events of compiling a text with a reading of sound tokens are those of the tokens. -/
theorem compile_events_of_reads {text : String} {tokens : List Token}
    (reads : Reads text.toList tokens) (sound : ∀ token ∈ tokens, token.Sound) :
    (compile (.text text)).events = tokens.filterMap Token.event? := by
  obtain ⟨front, back, whole, _, stopped, told⟩ := @compile_events (.text text) _ rfl
  have all_sound := reads.sound_iff.mpr sound
  obtain rfl : back = [] := by
    cases back with
    | nil => rfl
    | cons piece back =>
        have member : piece ∈ pieces text.toList := by
          rw [whole]
          exact List.mem_append_right _ List.mem_cons_self
        exact absurd (all_sound piece member) (stopped piece rfl)
  rw [told, reads.tokens_eq, Piece.filterMap_event?_tokens, whole, List.append_nil]

/-- `itemsOf` fails at the first piece that is not sound, but for an escape character at the end,
which is checked before the run in front of it. -/
private theorem itemsOf_stops {position : Nat} {pieces : List Piece} {failure : Failure}
    (refused : (itemsOf position pieces).outcome = .error failure) :
    ∃ front piece back, pieces = front ++ piece :: back ∧
      (piece = .dangling ∨ ∀ other ∈ front, other.Sound) ∧
      piece.Refused (position + (front.flatMap Piece.text).length) failure ∧
      (itemsOf position pieces).events = front.filterMap Piece.event? := by
  induction pieces generalizing position with
  | nil => contradiction
  | cons piece rest ih =>
      unfold itemsOf at refused ⊢
      split at refused
      · contradiction
      · rename_i characters others same
        obtain ⟨rfl, rfl⟩ := List.cons.inj same
        refine ⟨[.run characters], .dangling, others, rfl, .inl rfl, ?_, rfl⟩
        obtain rfl := Except.error.inj refused
        rw [List.flatMap_singleton]
        exact .dangling
      · rename_i first others _ same
        obtain ⟨rfl, rfl⟩ := List.cons.inj same
        cases outcome : (pieceItem position piece).outcome with
        | error own =>
            rw [Traced.outcome_bind_of_error outcome] at refused
            obtain rfl := Except.error.inj refused
            refine ⟨[], piece, rest, rfl, .inr (List.forall_mem_nil _),
              pieceItem_outcome_eq_error_iff.mp outcome, ?_⟩
            rw [Traced.events_bind_of_error outcome, pieceItem_events_of_error outcome]
            rfl
        | ok item =>
            obtain ⟨sound, _⟩ := pieceItem_outcome_eq_ok_iff.mp outcome
            rw [Traced.outcome_bind_of_ok outcome] at refused
            obtain ⟨front, last, back, whole, front_sound, failed, told⟩ :=
              ih (Traced.outcome_bind_pure_eq_error_iff.mp refused)
            refine ⟨piece :: front, last, back, congrArg _ whole,
              front_sound.imp_right fun others => List.forall_mem_cons.mpr ⟨sound, others⟩, ?_, ?_⟩
            · rw [List.flatMap_cons, List.length_append, ← Nat.add_assoc]
              exact failed
            · rw [Traced.events_bind_of_ok outcome, pieceItem_events_of_ok outcome,
                Traced.events_bind_pure, told, List.filterMap_cons]
              cases piece.event? <;> rfl

variable {text : String} {failure : Failure}

/-- `compile` of a text fails at one of its pieces. -/
private theorem compile_stops (refused : (compile (.text text)).outcome = .error failure) :
    ∃ front piece back, pieces text.toList = front ++ piece :: back ∧
      (piece = .dangling ∨ ∀ other ∈ front, other.Sound) ∧
      piece.Refused (front.flatMap Piece.text).length failure ∧
      (compile (.text text)).events = front.filterMap Piece.event? := by
  have stopped : (itemsOf 0 (pieces text.toList)).outcome = .error failure :=
    Traced.outcome_bind_pure_eq_error_iff.mp refused
  obtain ⟨front, piece, back, whole, sound, failed, told⟩ := itemsOf_stops stopped
  rw [Nat.zero_add] at failed
  refine ⟨front, piece, back, whole, sound, failed, ?_⟩
  rw [← told]
  exact Traced.events_bind_pure (readItems text.toList) (Format.mk (.text text))

/-- `compile` refuses an escape character at the end of a text with its position. -/
theorem compile_dangling (refused : (compile (.text text)).outcome = .error failure)
    (dangling : failure.cause = .danglingEscape) :
    ∃ front, text.toList = front ++ [escapeCharacter] ∧ failure.position = some front.length := by
  obtain ⟨front, piece, back, whole, _, failed, _⟩ := compile_stops refused
  obtain ⟨rest, behind, taken, _⟩ := exists_of_pieces_eq_append whole
  cases failed with
  | run narrow wide | long unreadable | field readable faulty | cutOff flags
  | unknown flags letter => contradiction
  | dangling =>
      obtain rfl : rest = [] := by
        obtain ⟨_, _, run, _⟩ | ⟨_, last⟩ | ⟨_, _, _, _, field⟩ := takePiece?_cases taken
        · contradiction
        · exact last
        · exact absurd field (takeField_ne_dangling _ _)
      exact ⟨_, behind, rfl⟩

/-- `compile` fails otherwise at a piece behind a format, with the events of that format. -/
theorem compile_stops_behind (refused : (compile (.text text)).outcome = .error failure)
    (inside : failure.cause ≠ .danglingEscape) :
    ∃ (front : String) (tokens : List Token) (piece : Piece) (rest : List Char),
      text.toList = front.toList ++ (piece.text ++ rest) ∧
      Reads front.toList tokens ∧ (∀ token ∈ tokens, token.Sound) ∧
      takePiece? (piece.text ++ rest) = some (piece, rest) ∧
      (∀ characters, piece = .run characters →
        ∀ character, tokens.getLast? ≠ some (.literal character)) ∧
      piece.Refused front.length failure ∧
      (compile (.text text)).events = tokens.filterMap Token.event? := by
  obtain ⟨front, piece, back, whole, dangling_or_sound, failed, told⟩ := compile_stops refused
  obtain sound : ∀ other ∈ front, other.Sound := by
    obtain rfl | sound := dangling_or_sound
    · cases failed
      exact absurd rfl inside
    · exact sound
  obtain ⟨rest, behind, taken, _⟩ := exists_of_pieces_eq_append whole
  refine ⟨String.ofList (front.flatMap Piece.text), front.flatMap Piece.tokens, piece, rest,
    ?_, ?_, Piece.sound_of_mem_flatMap_tokens sound, taken, ?_, ?_, ?_⟩
  · rw [String.toList_ofList]
    exact behind
  · rw [String.toList_ofList]
    exact Reads.of_front whole sound
  · rintro characters rfl
    exact Piece.getLast?_flatMap_tokens sound (getLast?_ne_run whole)
  · rw [String.length_ofList]
    exact failed
  · rw [told, Piece.filterMap_event?_tokens]

end Format

end BitRecord
