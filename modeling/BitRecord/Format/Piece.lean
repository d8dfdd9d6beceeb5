/-
# The pieces of a format text

Every text whatever is a sequence of pieces: runs of literal characters, fields,
and faulty pieces, which start like a field and are none. The texts of the
pieces, put together, are the text again (`flatMap_text_pieces`), so nothing is
lost or read twice.
-/

import BitRecord.Format.Spelling

namespace BitRecord

/-- A piece of a format text. -/
inductive Piece where
  /-- Literal characters, each pair of escape characters read as one. -/
  | run (characters : List Char)
  /-- A field. -/
  | field (spelling : Spelling)
  /-- An escape character with nothing behind it. -/
  | dangling
  /-- A field that ends before its letter. -/
  | cutOff (flags : Flags)
  /-- A field with a letter that stands for no type. -/
  | unknown (flags : Flags) (letter : Char)
  deriving DecidableEq, Repr

namespace Piece

/-- The text of a literal character: the escape character is written twice. -/
def literalText (character : Char) : List Char :=
  if character = escapeCharacter then [escapeCharacter, escapeCharacter] else [character]

/-- The text of a piece. -/
def text : Piece → List Char
  | run characters => characters.flatMap literalText
  | field spelling => escapeCharacter :: spelling.text
  | dangling => [escapeCharacter]
  | cutOff flags => escapeCharacter :: flags.text
  | unknown flags letter => escapeCharacter :: flags.text ++ [letter]

end Piece

/-- Takes the literal characters off the front of a text, as many as there are. -/
def takeRun : List Char → List Char × List Char
  | [] => ([], [])
  | first :: rest =>
      if first = escapeCharacter then
        match rest with
        | second :: rest =>
            if second = escapeCharacter then
              (escapeCharacter :: (takeRun rest).1, (takeRun rest).2)
            else ([], first :: second :: rest)
        | [] => ([], [first])
      else (first :: (takeRun rest).1, (takeRun rest).2)

/-- Reads what stands behind an escape character, up to the end of the field. -/
def takeField (text : List Char) : Piece × List Char :=
  match Flags.read text with
  | (flags, []) => (.cutOff flags, [])
  | (flags, letter :: rest) =>
      match Kind.ofLetter? letter with
      | none => (.unknown flags letter, rest)
      | some kind =>
          if flags.fill.isSome then (.field ⟨flags, kind, none⟩, rest)
          else
            let (lateFill, rest) := takeFlag? Fill.ofFlag? rest
            (.field ⟨flags, kind, lateFill⟩, rest)

/-- Takes the first piece off a text. There is none in the empty text. -/
def takePiece? (text : List Char) : Option (Piece × List Char) :=
  match takeRun text with
  | (first :: characters, rest) => some (.run (first :: characters), rest)
  | ([], []) => none
  | ([], [_]) => some (.dangling, [])
  | ([], _ :: rest) => some (takeField rest)

theorem length_takeRun_le (text : List Char) :
    (takeRun text).1.length + (takeRun text).2.length ≤ text.length := by
  fun_induction takeRun text <;> simp_all <;> omega

theorem length_takeField_le (text : List Char) : (takeField text).2.length ≤ text.length := by
  have flags := Flags.length_read_le text
  unfold takeField
  split
  · simp
  · rename_i read
    rw [read] at flags
    simp only [List.length_cons] at flags
    split
    · simp only; omega
    · split
      · simp only; omega
      · rename_i rest _ _ _ _
        have late := length_takeFlag?_le Fill.ofFlag? rest
        simp only
        omega

/-- Taking a piece makes the text shorter. -/
theorem length_takePiece?_lt {text rest : List Char} {piece : Piece}
    (taken : takePiece? text = some (piece, rest)) : rest.length < text.length := by
  have run := length_takeRun_le text
  unfold takePiece? at taken
  split at taken
  · rename_i read
    rw [read] at run
    simp at taken
    simp at run
    obtain ⟨_, rfl⟩ := taken
    omega
  · simp at taken
  · rename_i read
    rw [read] at run
    simp at taken
    simp at run
    obtain ⟨_, rfl⟩ := taken
    simp
    omega
  · rename_i behind _ read
    rw [read] at run
    simp at taken
    simp at run
    have field := length_takeField_le behind
    rw [taken] at field
    simp only at field
    omega

/-- The pieces of a text. -/
def pieces (text : List Char) : List Piece :=
  match _ : takePiece? text with
  | none => []
  | some (piece, rest) => piece :: pieces rest
termination_by text.length
decreasing_by exact length_takePiece?_lt ‹_›

/-- The pieces of a text are the first one and the pieces of what is left. -/
theorem pieces_of_taken {text rest : List Char} {piece : Piece}
    (taken : takePiece? text = some (piece, rest)) : pieces text = piece :: pieces rest := by
  rw [pieces]
  split
  · rename_i missing
    rw [missing] at taken
    contradiction
  · rename_i found
    rw [found] at taken
    obtain ⟨rfl, rfl⟩ := Prod.mk.inj (Option.some.inj taken)
    rfl

theorem flatMap_text_takeRun (text : List Char) :
    (takeRun text).1.flatMap Piece.literalText ++ (takeRun text).2 = text := by
  fun_induction takeRun text <;> simp_all [Piece.literalText]

/-- What stops a run is an escape character. -/
theorem head_takeRun {text behind : List Char} {first : Char}
    (stopped : (takeRun text).2 = first :: behind) : first = escapeCharacter := by
  fun_induction takeRun text <;> simp_all

theorem text_takeField (text : List Char) :
    (takeField text).1.text ++ (takeField text).2 = escapeCharacter :: text := by
  have flags := Flags.text_read text
  unfold takeField
  split
  · rename_i read
    rw [read] at flags
    simpa [Piece.text] using flags
  · rename_i read
    rw [read] at flags
    simp only at flags
    split
    · simp [Piece.text, ← flags]
    · rename_i rest _ kind letter
      have letter := Kind.letter_of_ofLetter? letter
      split
      · simp [Piece.text, Spelling.text, ← flags, letter]
      · have late := Fill.flag_takeFlag? rest
        simp [Piece.text, Spelling.text, ← flags, letter, late]

theorem text_takePiece? {text rest : List Char} {piece : Piece}
    (taken : takePiece? text = some (piece, rest)) : piece.text ++ rest = text := by
  have run := flatMap_text_takeRun text
  unfold takePiece? at taken
  split at taken
  · rename_i read
    rw [read] at run
    simp only [Option.some.injEq, Prod.mk.injEq] at taken
    obtain ⟨rfl, rfl⟩ := taken
    exact run
  · simp at taken
  · rename_i last read
    simp only [Option.some.injEq, Prod.mk.injEq] at taken
    obtain ⟨rfl, rfl⟩ := taken
    rw [read] at run
    have escape : last = escapeCharacter := head_takeRun (congrArg Prod.snd read)
    simp [Piece.text, ← run, escape]
  · rename_i first behind _ read
    rw [read] at run
    have escape : first = escapeCharacter := head_takeRun (congrArg Prod.snd read)
    have field := text_takeField behind
    simp only [Option.some.injEq] at taken
    rw [taken] at field
    simp only [field, ← run]
    simp [escape]

/-- Only the empty text has no first piece. -/
theorem takePiece?_eq_none_iff {text : List Char} : takePiece? text = none ↔ text = [] := by
  constructor
  · intro missing
    have run := flatMap_text_takeRun text
    unfold takePiece? at missing
    split at missing <;> simp_all
  · rintro rfl
    rfl

/-- The texts of the pieces, put together, are the text. -/
theorem flatMap_text_pieces (text : List Char) : (pieces text).flatMap Piece.text = text := by
  fun_induction pieces text with
  | case1 text missing => simp [takePiece?_eq_none_iff.mp missing]
  | case2 text piece rest taken ih => simp [ih, text_takePiece? taken]

end BitRecord
