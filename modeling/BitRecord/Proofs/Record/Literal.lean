/-
# Bytes as a literal

Any bytes, with each escape character written twice, are a format of one literal
with these bytes. The format takes no values, `pack` gives the bytes, and
`unpack` succeeds exactly on the buffers that start with them.
-/

import BitRecord.Proofs.Format.Printing
import BitRecord.Proofs.Record.Refusal

namespace BitRecord

/-- Bytes with each escape character written twice. -/
def Bytes.escaped (data : Bytes) : Bytes :=
  data.flatMap fun byte => if byte = Piece.byte escapeCharacter then [byte, byte] else [byte]

/-- The text whose characters have the numbers of bytes. -/
def Bytes.characters (data : Bytes) : List Char := data.map fun byte => Char.ofNat byte.toNat

/-- The values that hold the bytes of a format: as bytes, or as the text with their characters. -/
inductive Value.Holds (data : Bytes) : Value → Prop
  | bytes : Holds data (.buffer .bytes data)
  | byteArray : Holds data (.buffer .byteArray data)
  | text : Holds data (.text (String.ofList data.characters))

/-- The items of a format that is bytes and nothing else. -/
def Format.literalItems (data : Bytes) : List Item :=
  if data = [] then [] else [⟨0, .literal data⟩]

variable {given : Value} {data : Bytes}

theorem Value.Holds.textOf? (holds : given.Holds data) :
    Format.textOf? given = some data.characters := by
  cases holds with
  | bytes | byteArray => rfl
  | text => exact congrArg some String.toList_ofList

/-- The byte of the escape character is that of no other character. -/
theorem Piece.eq_byte_escapeCharacter_iff (byte : UInt8) :
    byte = Piece.byte escapeCharacter ↔ Char.ofNat byte.toNat = escapeCharacter := by
  apply Iff.intro
  · rintro rfl
    rfl
  · intro escape
    rw [← escape, Piece.byte_character]

/-- The characters of escaped bytes are the text of the literal. -/
theorem Bytes.characters_escaped (data : Bytes) :
    data.escaped.characters = data.characters.flatMap Piece.literalText := by
  rw [escaped, characters, characters, List.map_flatMap, List.flatMap_map]
  refine List.flatMap_congr fun byte _ => ?_
  by_cases escape : byte = Piece.byte escapeCharacter
  · rw [if_pos escape, Piece.literalText,
      if_pos ((Piece.eq_byte_escapeCharacter_iff byte).mp escape), escape]
    rfl
  · rw [if_neg escape, Piece.literalText,
      if_neg ((Piece.eq_byte_escapeCharacter_iff byte).not.mp escape)]
    rfl

/-- The items of characters that are all literal are one literal, if there are any. -/
theorem Token.items_characters (data : Bytes) :
    Token.items 0 (data.characters.map .literal) = Format.literalItems data := by
  rw [Format.literalItems, Bytes.characters, List.map_map]
  split
  · rename_i empty
    rw [empty]
    rfl
  · rename_i filled
    exact Directive.items_literal filled 0

/-- Escaped bytes are a format with nothing but a literal. -/
theorem Format.compile_escaped (holds : given.Holds data.escaped) :
    (compile given).outcome = .ok ⟨given, literalItems data⟩ := by
  have reads := Reads.nil.literals data.characters
  rw [List.append_nil, List.append_nil, ← Bytes.characters_escaped] at reads
  have sound : ∀ token ∈ data.characters.map Token.literal, token.Sound := by
    intro token member
    obtain ⟨character, listed, rfl⟩ := List.mem_map.mp member
    obtain ⟨byte, -, rfl⟩ := List.mem_map.mp listed
    exact Token.sound_character byte
  have pieces_sound := reads.sound_iff.mpr sound
  refine compile_outcome_eq_ok_iff.mpr ⟨_, holds.textOf?, pieces_sound, ?_⟩
  rw [reads.items_eq pieces_sound, Token.items_characters]

/-- The items of a literal take no values, request no numbers, and have exactly its bits. -/
theorem Format.literalItems_bare (given : Value) (data : Bytes) (source : RandomSource) :
    (Format.bind ⟨given, literalItems data⟩ (.tuple [])).outcome = .ok [] ∧
      source.answers #[] (Format.mk given (literalItems data)).requests = .ok [] ∧
      Record.entries (Format.mk given (literalItems data)).directives [] [] = [] ∧
      Format.layOut ⟨given, literalItems data⟩ [] [] = Bits.ofBytes data := by
  rw [literalItems]
  split
  · rename_i empty
    rw [empty]
    exact ⟨rfl, rfl, rfl, rfl⟩
  · exact ⟨rfl, rfl, rfl, List.append_nil _⟩

/-- `pack` of no values gives the literal, with every source. -/
theorem Format.pack_escaped (holds : given.Holds data.escaped) (source : RandomSource) :
    (BitRecord.pack given (.tuple []) source).outcome = .ok data := by
  have compiled := compile_escaped holds
  obtain ⟨bound, answered, entries, laid_out⟩ := literalItems_bare given data source
  have fits : ∀ entry ∈ Record.entries (Format.mk given (literalItems data)).directives [] [],
      entry.Fits := by
    rw [entries]
    exact List.forall_mem_nil _
  rw [pack_of_compile compiled, pack_eq (valid_of_compile compiled) bound answered fits,
    Record.images, List.zipWith_nil_right, laid_out, Bits.toBytes_ofBytes]

/-- The obstacle of a literal at the front of a record. -/
theorem Directive.obstacle?_literal (data record : Bytes) :
    (literal data).obstacle? record 0 =
      if record.length < data.length then
        some ((Cause.truncated (8 * data.length) 0 (8 * record.length)).ifWritten
          (DigitLimit.canWrite (8 * data.length : Nat)))
      else if record.take data.length = data then none
      else some (.literalMismatch data (record.take data.length) 0) := by
  have stop : (literal data).stop 0 = 8 * data.length := Nat.zero_add _
  have start : (literal data).start 0 = 0 := rfl
  have slice : record.slice 0 data.length = record.take data.length := rfl
  rw [obstacle?, stop, start]
  by_cases short : record.length < data.length
  · have missing : (Reader.atBit record 0).remaining < 8 * data.length := by
      rw [Reader.remaining_atBit]
      omega
    rw [if_pos (by omega), if_pos short, stride, Reader.shortage_of_lt missing,
      Reader.truncation, Reader.remaining_atBit]
    rfl
  · rw [if_neg (by omega), if_neg short]
    simp only [Nat.zero_div, slice]

/-- `Record.read` of a literal at the front of a record: it succeeds, or the record is too short, or
it has other bytes there. -/
theorem Record.read_literalItems (data record : Bytes) :
    (read (Format.literalItems data) (.atBit record 0)).outcome =
      if record.length < data.length then
        .error (.attributed ((Cause.truncated (8 * data.length) 0 (8 * record.length)).ifWritten
          (DigitLimit.canWrite (8 * data.length : Nat))) 0)
      else if record.take data.length = data then .ok []
      else .error (.placed (.literalMismatch data (record.take data.length) 0) 0) := by
  by_cases empty : data = []
  · subst empty
    exact (if_neg (Nat.not_lt_zero record.length)).symm
  · have obstacle := Directive.obstacle?_literal data record
    have inside : 0 ≤ 8 * record.length := Nat.zero_le _
    have valid : (Item.mk 0 (.literal data)).directive.Valid := trivial
    rw [Format.literalItems, if_neg empty, read]
    split
    · rename_i short
      rw [if_pos short] at obstacle
      rw [readItem_of_obstacle inside obstacle]
      rfl
    · rename_i enough
      rw [if_neg enough] at obstacle
      split
      · rename_i found
        rw [if_pos found] at obstacle
        rw [readItem_of_clear valid inside obstacle]
        rfl
      · rename_i different
        rw [if_neg different] at obstacle
        rw [readItem_of_obstacle inside obstacle]
        rfl

/-- `compile` of any byte string with its escape characters doubled, given as bytes or as a text,
gives the literal of these bytes at position zero, or no directive when there are none. `pack` gives
the bytes. `unpack` succeeds on a buffer that starts with them, fails with `truncated` on a shorter
one, and with `literalMismatch` on any other. For a length beyond the digit limit, which no byte
string in memory has, the failure of the shorter buffer is `longInteger`. -/
theorem Format.escaped_stands_for_itself (holds : given.Holds data.escaped) :
    (compile given).outcome =
        .ok ⟨given, if data = [] then [] else [⟨0, .literal data⟩]⟩ ∧
      (∀ source, (BitRecord.pack given (.tuple []) source).outcome = .ok data) ∧
      ∀ (buffer : Value) (bytes : Bytes), buffer.asBytes? = some bytes →
        (data <+: bytes → (BitRecord.unpack given buffer .null).outcome = .ok []) ∧
        (bytes.length < data.length →
          (8 * data.length < DigitLimit.bound →
            (BitRecord.unpack given buffer .null).outcome =
              .error (.placed (.truncated (8 * data.length) 0 (8 * bytes.length)) 0) ∧
            (Cause.truncated (8 * data.length) 0 (8 * bytes.length)).family = .truncatedInput) ∧
          (DigitLimit.bound ≤ 8 * data.length →
            (BitRecord.unpack given buffer .null).outcome = .error (.unplaced .longInteger))) ∧
        (data.length ≤ bytes.length → ¬ data <+: bytes →
          (BitRecord.unpack given buffer .null).outcome =
            .error (.placed (.literalMismatch data (bytes.take data.length) 0) 0) ∧
          (Cause.literalMismatch data (bytes.take data.length) 0).family = .literalMismatch) := by
  have compiled := compile_escaped holds
  refine ⟨compiled, pack_escaped holds, fun buffer bytes held => ?_⟩
  have starts : bytes.take data.length = data ↔ data <+: bytes :=
    eq_comm.trans List.prefix_iff_eq_take.symm
  have unpacked := congrArg Traced.outcome (unpack_eq_read compiled held (.inl ⟨rfl, rfl⟩))
  rw [List.take_length] at unpacked
  rw [unpacked, Record.read_literalItems]
  refine ⟨fun found => ?_, fun short => ⟨fun written => ⟨?_, rfl⟩, fun long => ?_⟩,
    fun enough different => ⟨?_, rfl⟩⟩
  · rw [if_neg (Nat.not_lt.mpr found.length_le), if_pos (starts.mpr found)]
  · rw [if_pos short, DigitLimit.canWrite_natCast_iff.mpr written, Cause.ifWritten_true,
      Failure.attributed_of_located rfl]
  · rw [if_pos short, DigitLimit.canWrite_natCast_eq_false_iff.mpr long, Cause.ifWritten_false]
    rfl
  · rw [if_neg (Nat.not_lt.mpr enough), if_neg (starts.not.mpr different)]

/-- A literal that would be a field without the doubled escape character. -/
theorem Format.escaped_stands_for_itself_field :
    (BitRecord.pack (.text "%%3s%%") (.tuple []) (.cyclic #[])).outcome =
        .ok [37, 51, 115, 37] ∧
      (BitRecord.unpack (.text "%%3s%%") (.buffer (.view .whole) [37, 51, 115]) .null).outcome =
        .error (.placed (.truncated 32 0 24) 0) ∧
      (BitRecord.unpack (.text "%%3s%%") (.buffer (.view .whole) [37, 51, 115, 37, 1])
        .null).outcome = .ok [] := by
  have holds : Value.Holds (Bytes.escaped [37, 51, 115, 37]) (.text "%%3s%%") := .text
  have written : 32 < DigitLimit.bound :=
    DigitLimit.lt_bound_of_lt_pow (show 32 < 10 ^ (2 : Nat) by decide) (by decide)
  obtain ⟨-, packed, unpacked⟩ := escaped_stands_for_itself holds
  exact ⟨packed _,
    (((unpacked (.buffer (.view .whole) [37, 51, 115]) _ rfl).2.1 (by decide)).1 written).1,
    (unpacked (.buffer (.view .whole) [37, 51, 115, 37, 1]) _ rfl).1 (by decide)⟩

end BitRecord
