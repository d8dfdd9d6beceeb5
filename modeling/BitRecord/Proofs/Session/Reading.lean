/-
# The events of compiling a format

`Format.compile` leaves a `compiled` event for every field up to the first piece
of the text that is refused, and no other event. No other part of a call leaves
one. So the `compiled` events are exactly those that are missing from a call whose
format is in the cache.
-/

import BitRecord.Proofs.Format.Items
import BitRecord.Proofs.Format.Preparation
import BitRecord.Session

namespace BitRecord

/-- Whether an event is `compiled`. -/
def Event.isReading : Event → Bool
  | compiled _ _ => true
  | _ => false

/-- The `compiled` event of a piece, if it is a field. -/
def Piece.event? : Piece → Option Event
  | field spelling => some (.compiled spelling.field (Piece.field spelling).text)
  | run _ | dangling | cutOff _ | unknown _ _ => none

namespace Format

/-- A piece that is refused leaves no event. -/
theorem pieceItem_events_of_error {position : Nat} {piece : Piece} {failure : Failure}
    (refused : (pieceItem position piece).outcome = .error failure) :
    (pieceItem position piece).events = [] := by
  cases piece with
  | run | dangling | cutOff | unknown => rfl
  | field spelling =>
      rw [pieceItem, fieldItem] at refused ⊢
      split
      · rename_i readable
        rw [if_pos readable] at refused
        split
        · rfl
        · rename_i accepted
          rw [accepted] at refused
          contradiction
      · rfl

/-- A piece that is accepted leaves the event of its field, if it is one. -/
theorem pieceItem_events_of_ok {position : Nat} {piece : Piece} {item : Item}
    (accepted : (pieceItem position piece).outcome = .ok item) :
    (pieceItem position piece).events = piece.event?.toList := by
  cases piece with
  | run => rfl
  | dangling | cutOff | unknown => contradiction
  | field spelling =>
      rw [pieceItem, fieldItem] at accepted ⊢
      split at accepted
      · rename_i readable
        rw [if_pos readable]
        split
        · rename_i fault refused
          rw [refused] at accepted
          contradiction
        · rfl
      · contradiction

/-- `itemsOf` leaves the `compiled` events of the fields in front of the first piece that is
refused. -/
private theorem itemsOf_events (position : Nat) (pieces : List Piece) :
    ∃ front back, pieces = front ++ back ∧ (∀ piece ∈ front, piece.Sound) ∧
      (∀ piece ∈ back.head?, ¬ piece.Sound) ∧
      (itemsOf position pieces).events = front.filterMap Piece.event? := by
  induction pieces generalizing position with
  | nil => exact ⟨[], [], rfl, List.forall_mem_nil _, by simp, rfl⟩
  | cons piece rest ih =>
      unfold itemsOf
      split
      · contradiction
      · rename_i characters others same
        obtain ⟨rfl, rfl⟩ := List.cons.inj same
        -- Neither a refused run nor a dangling escape character has an event.
        by_cases narrow : (Piece.run characters).Sound
        · exact ⟨[.run characters], .dangling :: others, rfl, List.forall_mem_singleton.mpr narrow,
            by simp [Piece.Sound], rfl⟩
        · exact ⟨[], .run characters :: .dangling :: others, rfl, List.forall_mem_nil _,
            by simpa using narrow, rfl⟩
      · rename_i first others _ same
        obtain ⟨rfl, rfl⟩ := List.cons.inj same
        cases outcome : (pieceItem position piece).outcome with
        | error failure =>
            have unsound : ¬ piece.Sound := fun sound => by
              obtain ⟨item, accepted⟩ := exists_pieceItem_of_sound sound position
              rw [accepted] at outcome
              contradiction
            refine ⟨[], piece :: rest, rfl, List.forall_mem_nil _, by simpa using unsound, ?_⟩
            rw [Traced.events_bind_of_error outcome, pieceItem_events_of_error outcome]
            rfl
        | ok item =>
            obtain ⟨sound, _⟩ := pieceItem_outcome_eq_ok_iff.mp outcome
            obtain ⟨front, back, whole, front_sound, stopped, told⟩ :=
              ih (position + piece.text.length)
            refine ⟨piece :: front, back, congrArg _ whole,
              List.forall_mem_cons.mpr ⟨sound, front_sound⟩, stopped, ?_⟩
            rw [Traced.events_bind_of_ok outcome, pieceItem_events_of_ok outcome,
              Traced.events_bind_pure, told, List.filterMap_cons]
            cases piece.event? <;> rfl

/-- `compile` leaves the `compiled` events of the fields in front of the first piece that is
refused. -/
theorem compile_events {given : Value} {text : List Char} (held : textOf? given = some text) :
    ∃ front back, pieces text = front ++ back ∧ (∀ piece ∈ front, piece.Sound) ∧
      (∀ piece ∈ back.head?, ¬ piece.Sound) ∧
      (compile given).events = front.filterMap Piece.event? := by
  obtain ⟨front, back, whole, sound, stopped, told⟩ := itemsOf_events 0 (pieces text)
  refine ⟨front, back, whole, sound, stopped, ?_⟩
  rw [compile, held, ← told]
  exact Traced.events_bind_pure (readItems text) (Format.mk given)

/-- Every event of `compile` is `compiled`. -/
theorem compile_reads (given : Value) :
    ∀ event ∈ (compile given).events, event.isReading = true := by
  intro event member
  cases held : textOf? given with
  | none =>
      rw [compile, held] at member
      contradiction
  | some text =>
      obtain ⟨front, _, _, _, _, told⟩ := compile_events held
      rw [told, List.mem_filterMap] at member
      obtain ⟨piece, _, same⟩ := member
      cases piece with
      | field spelling =>
          obtain rfl := Option.some.inj same
          rfl
      | run | dangling | cutOff | unknown => contradiction

end Format

namespace Traced

variable {α β : Type}

/-- Whether an operation leaves no `compiled` event. -/
def ReadsNothing (traced : Traced α) : Prop := ∀ event ∈ traced.events, event.isReading = false

theorem readsNothing_of_silent {traced : Traced α} (silent : traced.events = []) :
    traced.ReadsNothing := by
  intro event member
  rw [silent] at member
  contradiction

theorem ReadsNothing.bind {first : Traced α} {next : α → Traced β}
    (early : first.ReadsNothing) (late : ∀ value, (next value).ReadsNothing) :
    (first >>= next).ReadsNothing :=
  forall_events_bind early late

theorem readsNothing_ofResult (result : Except Cause α) : (ofResult result).ReadsNothing := by
  cases result with
  | ok value => exact readsNothing_of_silent rfl
  | error cause => exact readsNothing_of_silent rfl

end Traced

namespace Codec

private theorem readsNothing_appendUnsigned (emission : Emission) (order : Order)
    (width value : Nat) : (emission.appendUnsigned order width value).ReadsNothing := by
  rw [Emission.appendUnsigned]
  split
  · exact Traced.readsNothing_of_silent rfl
  · exact Traced.readsNothing_of_silent rfl

private theorem readsNothing_fill (source : RandomSource) (mode : Fill) (width : Nat)
    (emission : Emission) : (fill source mode width emission).ReadsNothing := by
  cases mode with
  | zeros | ones => exact Traced.readsNothing_of_silent rfl
  | random =>
      refine (Traced.readsNothing_ofResult _).bind fun number => ?_
      exact Traced.ReadsNothing.bind (List.forall_mem_singleton.mpr rfl) fun _ =>
        readsNothing_appendUnsigned _ _ _ _

private theorem readsNothing_fillRepeatedly (source : RandomSource) (mode : Fill)
    (width count : Nat) (emission : Emission) :
    (fillRepeatedly source mode width count emission).ReadsNothing := by
  induction count generalizing emission with
  | zero => exact Traced.readsNothing_of_silent rfl
  | succ count ih => exact (readsNothing_fill source mode width emission).bind ih

private theorem readsNothing_appendAll (order : Order) (width : Nat) (values : List Nat)
    (emission : Emission) : (appendAll order width values emission).ReadsNothing := by
  induction values generalizing emission with
  | nil => exact Traced.readsNothing_of_silent rfl
  | cons value values ih =>
      exact (readsNothing_appendUnsigned emission order width value).bind ih

private theorem readsNothing_encodeBits (field : Field) (payload : Payload) (emission : Emission) :
    (encodeBits field payload emission).ReadsNothing := by
  unfold encodeBits
  split
  · exact Traced.readsNothing_of_silent rfl
  · split
    · exact readsNothing_appendUnsigned _ _ _ _
    · exact readsNothing_appendUnsigned _ _ _ _
    · split <;> exact Traced.readsNothing_of_silent rfl
  · exact Traced.readsNothing_of_silent rfl

private theorem readsNothing_encodeIntegers (field : Field) (payload : Payload)
    (emission : Emission) : (encodeIntegers field payload emission).ReadsNothing := by
  cases payload with
  | integers values => exact readsNothing_appendAll _ _ _ _
  | integer value => exact readsNothing_appendUnsigned _ _ _ _
  | bytes data => exact Traced.readsNothing_of_silent rfl

private theorem readsNothing_encodeString (field : Field) (payload : Payload)
    (emission : Emission) : (encodeString field payload emission).ReadsNothing := by
  unfold encodeString
  split
  · split
    · exact Traced.ReadsNothing.bind (List.forall_mem_singleton.mpr rfl) fun _ =>
        Traced.readsNothing_of_silent rfl
    · exact Traced.readsNothing_of_silent rfl
  · exact Traced.readsNothing_of_silent rfl

private theorem readsNothing_encodePayload (field : Field) (payload : Payload)
    (emission : Emission) : (encodePayload field payload emission).ReadsNothing := by
  unfold encodePayload
  split
  · exact readsNothing_encodeBits _ _ _
  · exact readsNothing_encodeString _ _ _
  · exact readsNothing_encodeIntegers _ _ _

/-- Encoding a directive leaves no `compiled` event. -/
theorem readsNothing_encode (source : RandomSource) (directive : Directive)
    (arguments : List Argument) (emission : Emission) :
    (directive.encode source arguments emission).ReadsNothing := by
  unfold Directive.encode
  split
  · exact Traced.readsNothing_of_silent rfl
  · split
    · refine Traced.ReadsNothing.bind ?_ fun _ => Traced.readsNothing_of_silent rfl
      unfold encodeFill
      split
      · exact readsNothing_fill _ _ _ _
      · exact readsNothing_fillRepeatedly _ _ _ _ _
    · split
      · exact Traced.readsNothing_of_silent rfl
      · exact (readsNothing_encodePayload _ _ _).bind fun _ => Traced.readsNothing_of_silent rfl

end Codec

namespace Record

private theorem readsNothing_write (source : RandomSource) (items : List Item)
    (arguments : List Argument) (emission : Emission) :
    (write source items arguments emission).ReadsNothing := by
  induction items generalizing arguments emission with
  | nil => exact Traced.readsNothing_of_silent rfl
  | cons item items ih =>
      refine Traced.ReadsNothing.bind (List.forall_mem_singleton.mpr rfl) fun _ => ?_
      exact Traced.ReadsNothing.bind (Codec.readsNothing_encode _ _ _ _) fun _ => ih _ _

private theorem readsNothing_readItem (item : Item) (reader : Reader) :
    (readItem item reader).ReadsNothing := by
  have reported (failure : Failure) :
      ∀ event ∈ reportFailure item failure, event.isReading = false := by
    unfold reportFailure
    split
    · exact List.forall_mem_singleton.mpr rfl
    · exact List.forall_mem_nil _
  unfold readItem
  split
  · exact reported _
  · split
    · exact List.forall_mem_cons.mpr ⟨rfl, reported _⟩
    · exact List.forall_mem_singleton.mpr rfl

private theorem readsNothing_read (items : List Item) (reader : Reader) :
    (read items reader).ReadsNothing := by
  induction items generalizing reader with
  | nil => exact Traced.readsNothing_of_silent rfl
  | cons item items ih =>
      exact (readsNothing_readItem item reader).bind fun _ =>
        (ih _).bind fun _ => Traced.readsNothing_of_silent rfl

end Record

/-- A call with its format compiled leaves no `compiled` event. -/
theorem Call.readsNothing_run (call : Call) (format : Format) :
    (call.run format).ReadsNothing := by
  cases call with
  | pack given values source =>
      rw [run, Traced.ReadsNothing, Traced.map_eq]
      refine Traced.ReadsNothing.bind ?_ fun arguments => ?_
      · intro event member
        obtain ⟨argument, field, rfl⟩ := format.bind_events values event member
        rfl
      · refine (Record.readsNothing_write _ _ _ _).bind fun emission => ?_
        exact Traced.ReadsNothing.bind (List.forall_mem_singleton.mpr rfl) fun _ =>
          Traced.readsNothing_of_silent rfl
  | unpack given buffer length =>
      rw [run, Traced.ReadsNothing, Traced.map_eq]
      exact (Traced.readsNothing_ofResult _).bind fun reader => Record.readsNothing_read _ _
  | measure given => exact Traced.readsNothing_of_silent rfl

end BitRecord
