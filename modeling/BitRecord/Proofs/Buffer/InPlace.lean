/-
# Writing in place

A function that returns a changed buffer says nothing about the buffer that a
failure leaves behind. `packInPlace` changes the buffer itself: it undoes nothing
when it fails after a change, and its slice assignment fails for another number of
bytes. It still leaves the buffer that `packInto` returns, because everything that
can fail comes before the one assignment and the record has the size for which its
place was checked. So the bytes of the record are spliced into the buffer, or
every byte is as it was. A view with gaps is refused with `gappedBuffer` after the
record is packed.
-/

import BitRecord.Buffer
import BitRecord.Proofs.Bits.Slices
import BitRecord.Proofs.Format.Printing
import BitRecord.Proofs.Record.Acceptance

namespace BitRecord

namespace Bytes

variable {base patch : Bytes} {offset index : Nat}

/-- The slice in the place of a patch is the patch. -/
theorem slice_splice (fits : offset + patch.length ≤ base.length) :
    (base.splice offset patch).slice offset patch.length = patch := by
  have front : (base.take offset).length = offset := by
    rw [List.length_take]
    omega
  rw [slice, splice, List.append_assoc, List.drop_left' front, List.take_left]

/-- Inside the place of a patch the bytes are its own. -/
theorem getElem?_splice_inside (fits : offset + patch.length ≤ base.length) (front : offset ≤ index)
    (behind : index < offset + patch.length) :
    (base.splice offset patch)[index]? = patch[index - offset]? := by
  have lead : (base.take offset).length = offset := by
    rw [List.length_take]
    omega
  rw [splice, List.append_assoc, List.getElem?_append_right (by omega), lead,
    List.getElem?_append_left (by omega)]

/-- Bytes in front of a patch and behind it are as they were. -/
theorem getElem?_splice (fits : offset + patch.length ≤ base.length)
    (outside : index < offset ∨ offset + patch.length ≤ index) :
    (base.splice offset patch)[index]? = base[index]? := by
  have front : (base.take offset).length = offset := by
    rw [List.length_take]
    omega
  rw [splice, List.append_assoc]
  rcases outside with before | behind
  · rw [List.getElem?_append_left (by omega), List.getElem?_take_of_lt before]
  · rw [List.getElem?_append_right (by omega), List.getElem?_append_right (by omega),
      List.getElem?_drop, front]
    congr 1
    omega

end Bytes

/-- An operation on a buffer in place: what it gives, and the buffer as it leaves it. -/
def InPlace (α : Type) : Type := Value → Traced α × Value

namespace InPlace

variable {α β : Type}

/-- Runs the second operation on the buffer that the first one leaves, unless it fails. -/
protected def bind (first : InPlace α) (next : α → InPlace β) : InPlace β := fun buffer =>
  match (first buffer).1.outcome with
  | .error failure => (⟨(first buffer).1.events, .error failure⟩, (first buffer).2)
  | .ok value =>
      let following := next value (first buffer).2
      (⟨(first buffer).1.events ++ following.1.events, following.1.outcome⟩, following.2)

instance : Monad InPlace where
  pure value := fun buffer => (.pure value, buffer)
  bind := InPlace.bind

/-- An operation that leaves every buffer alone. -/
def aside (traced : Traced α) : InPlace α := fun buffer => (traced, buffer)

/-- Reads the buffer without changing it. -/
def look (view : Value → Except Cause α) : InPlace α := fun buffer =>
  (.ofResult (view buffer), buffer)

/-- Assigns bytes to the slice of a buffer from `start` on. The slice ends where the buffer does,
and an assignment of another number of bytes fails. -/
def assign (start : Nat) (patch : Bytes) : InPlace Unit := fun buffer =>
  match buffer with
  | .buffer holder data =>
      if (data.slice start patch.length).length = patch.length then
        (.pure (), .buffer holder (data.splice start patch))
      else (.fail (.unplaced (.noRoom patch.length data.length (.integer start))), buffer)
  | other => (.fail (.unplaced (.notBuffer other.valueClass)), other)

/-- Whether an operation in place has the outcome of one that returns the changed buffer, and leaves
that buffer. -/
def Follows (buffer : Value) (inPlace : InPlace Nat) (written : Traced (Value × Nat)) : Prop :=
  inPlace buffer = (Prod.snd <$> written, bufferAfter buffer written)

/-- `Follows` behind a step that does not change the buffer. -/
theorem Follows.aside_bind {buffer : Value} {traced : Traced α} {next : α → InPlace Nat}
    {giving : α → Traced (Value × Nat)}
    (following : ∀ value, traced.outcome = .ok value → Follows buffer (next value) (giving value)) :
    Follows buffer (aside traced >>= next) (traced >>= giving) := by
  obtain ⟨events, outcome⟩ := traced
  cases outcome with
  | error failure => rfl
  | ok value =>
      have later := following value rfl
      unfold Follows at later ⊢
      change (_, _) = _
      simp only [aside, later, Traced.map_eq, Traced.ok_bind]
      rfl

/-- `Follows` behind a step that reads the buffer. -/
theorem Follows.look_bind {buffer : Value} {view : Value → Except Cause α} {next : α → InPlace Nat}
    {giving : α → Traced (Value × Nat)}
    (following : ∀ value, view buffer = .ok value → Follows buffer (next value) (giving value)) :
    Follows buffer (look view >>= next) (Traced.ofResult (view buffer) >>= giving) := by
  have same : (look view >>= next) buffer =
      (aside (Traced.ofResult (view buffer)) >>= next) buffer := rfl
  rw [Follows, same]
  exact Follows.aside_bind fun value accepted =>
    following value (Traced.outcome_ofResult_eq_ok_iff.mp accepted)

end InPlace

namespace Value

/-- `asOffset` accepts an offset that counts bytes exactly when the record fits behind it. -/
theorem asOffset_of_count? {offset : Value} {start : Int} (counted : offset.count? = some start)
    (size capacity : Nat) :
    ∃ number, offset.number? = some number ∧ number.count? = some start ∧
      offset.asOffset size capacity =
        if 0 ≤ start ∧ start + size ≤ capacity then .ok number
        else .error ((Cause.noRoom size capacity number).ifWritten
          (DigitLimit.canWrite size && DigitLimit.canWrite start)) := by
  obtain ⟨number, known, counts⟩ := Option.bind_eq_some_iff.mp counted
  refine ⟨number, known, counts, ?_⟩
  have sum := Number.count?_addInt counts size
  rw [asOffset, known]
  simp only [Number.isLess_of_count? counts, Number.isGreater_of_count? sum, decide_eq_true_eq]
  by_cases fits : 0 ≤ start ∧ start + size ≤ capacity
  · rw [if_neg (by omega), if_pos fits]
  · rw [if_pos (by omega), if_neg fits, Number.canWrite_of_count? counts]

/-- A place that `asOffset` accepts counts bytes only when the offset does. -/
theorem count?_of_asOffset {offset : Value} {place : Number} {start : Int} {size capacity : Nat}
    (accepted : offset.asOffset size capacity = .ok place) (counts : place.count? = some start) :
    offset.count? = some start := by
  unfold asOffset at accepted
  split at accepted
  · contradiction
  · rename_i number known
    split at accepted
    · contradiction
    · obtain rfl := Except.ok.inj accepted
      rw [count?, known]
      exact counts

/-- A record fits behind a place that `asOffset` accepts and that counts bytes. -/
theorem fits_of_asOffset {offset : Value} {place : Number} {start : Int} {size capacity : Nat}
    (accepted : offset.asOffset size capacity = .ok place) (counts : place.count? = some start) :
    0 ≤ start ∧ start + size ≤ capacity := by
  have counted := count?_of_asOffset accepted counts
  obtain ⟨number, _, _, same⟩ := asOffset_of_count? counted size capacity
  rw [same] at accepted
  split at accepted
  · assumption
  · contradiction

end Value

namespace Format

/-- `Format.packInto` in place. -/
def packInPlace (format : Format) (values offset : Value) (source : RandomSource) :
    InPlace Nat := do
  let (holder, data) ← InPlace.look Value.asWritable
  let place ← InPlace.aside (.ofResult (offset.asOffset format.size data.length))
  let record ← InPlace.aside (format.pack values source)
  if !holder.isContiguous then InPlace.aside (.fail (.unplaced .gappedBuffer))
  else
    match place.count? with
    | none => InPlace.aside (.fail (.unplaced .notCount))
    | some start => do
        InPlace.assign start.toNat record
        return record.length

end Format

/-- `packInto` in place. -/
def packInPlace (given values offset : Value) (source : RandomSource) : InPlace Nat := do
  let format ← InPlace.aside (Format.compile given)
  format.packInPlace values offset source

namespace Format

variable {given values buffer offset : Value} {source : RandomSource} {format : Format}
  {holder : Holder} {data record : Bytes} {start : Int}

/-- `assign` of bytes that fit splices them into the buffer. -/
private theorem assign_of_fits {start : Nat} (fits : start + record.length ≤ data.length) :
    InPlace.assign start record (.buffer holder data) =
      (.pure (), .buffer holder (data.splice start record)) := by
  have whole : (data.slice start record.length).length = record.length := by
    rw [Bytes.slice, List.length_take, List.length_drop]
    omega
  exact if_pos whole

/-- `packInPlace` has the outcome of `packInto` and leaves the buffer that it returns. -/
theorem packInPlace_eq (given values buffer offset : Value) (source : RandomSource) :
    BitRecord.packInPlace given values offset source buffer =
      (Prod.snd <$> BitRecord.packInto given buffer values offset source,
        bufferAfter buffer (BitRecord.packInto given buffer values offset source)) := by
  -- All that can fail leaves the buffer alone, so only the assignment is left to compare.
  refine InPlace.Follows.aside_bind fun format compiled => ?_
  refine InPlace.Follows.look_bind fun (holder, data) writable => ?_
  refine InPlace.Follows.aside_bind fun place accepted => ?_
  refine InPlace.Follows.aside_bind fun record packed => ?_
  have size := length_of_pack (valid_of_compile compiled) packed
  have accepted := Traced.outcome_ofResult_eq_ok_iff.mp accepted
  obtain rfl : buffer = .buffer holder data := by
    unfold Value.asWritable at writable
    split at writable
    · split at writable
      · obtain ⟨rfl, rfl⟩ := Prod.mk.inj (Except.ok.inj writable)
        rfl
      · contradiction
    · contradiction
  by_cases gapped : (!holder.isContiguous) = true
  · rw [if_pos gapped, if_pos gapped]
    rfl
  rw [if_neg gapped, if_neg gapped]
  cases counts : place.count? with
  | none => rfl
  | some start =>
      obtain ⟨front, behind⟩ := Value.fits_of_asOffset accepted counts
      have assigned := @assign_of_fits holder data record start.toNat (by omega)
      have run : (InPlace.assign start.toNat record >>= fun _ => pure record.length)
          (.buffer holder data) =
            (.pure record.length, .buffer holder (data.splice start.toNat record)) := by
        change InPlace.bind _ _ _ = _
        rw [InPlace.bind, assigned]
        rfl
      exact run

/-- A failure of `packInPlace` leaves the buffer as it was. -/
theorem packInPlace_of_error {failure : Failure}
    (failed : (BitRecord.packInPlace given values offset source buffer).1.outcome =
      .error failure) :
    (BitRecord.packInPlace given values offset source buffer).2 = buffer := by
  rw [packInPlace_eq given values buffer offset source] at failed ⊢
  rw [Traced.map_eq] at failed
  cases outcome : (BitRecord.packInto given buffer values offset source).outcome with
  | error cause => simp only [bufferAfter, outcome]
  | ok result =>
      rw [outcome] at failed
      contradiction

/-- `Format.packInto` with an offset that counts bytes checks the place before `Format.pack` and
`Holder.isContiguous` behind it. -/
theorem packInto_eq (writable : holder.isWritable = true) (counted : offset.count? = some start)
    (format : Format) (data : Bytes) (values : Value) (source : RandomSource) :
    ∃ number, offset.number? = some number ∧
      format.packInto (.buffer holder data) values offset source =
        if 0 ≤ start ∧ start + format.size ≤ data.length then
          format.pack values source >>= fun record =>
            if holder.isContiguous then
              pure (.buffer holder (data.splice start.toNat record), record.length)
            else .fail (.unplaced .gappedBuffer)
        else .fail (.unplaced ((Cause.noRoom format.size data.length number).ifWritten
          (DigitLimit.canWrite format.size && DigitLimit.canWrite start))) := by
  obtain ⟨number, known, counts, place⟩ :=
    Value.asOffset_of_count? counted format.size data.length
  have held : (Value.buffer holder data).asWritable = .ok (holder, data) := if_pos writable
  refine ⟨number, known, ?_⟩
  rw [packInto, held, Traced.ofResult_ok_bind]
  dsimp only
  rw [place]
  by_cases fits : 0 ≤ start ∧ start + format.size ≤ data.length
  · rw [if_pos fits, if_pos fits, Traced.ofResult_ok_bind, counts]
    cases holder.isContiguous <;> rfl
  · rw [if_neg fits, if_neg fits, Traced.ofResult_error_bind]

/-- `packInto` succeeds exactly when the record fits, `pack` succeeds and the buffer is contiguous,
and splices the record into the buffer. -/
theorem packInto_outcome_eq_ok_iff (compiled : (compile given).outcome = .ok format)
    (writable : holder.isWritable = true) (counted : offset.count? = some start) {changed : Value}
    {written : Nat} :
    (BitRecord.packInto given (.buffer holder data) values offset source).outcome =
        .ok (changed, written) ↔
      0 ≤ start ∧ start + format.size ≤ data.length ∧ holder.isContiguous = true ∧
        ∃ record, (format.pack values source).outcome = .ok record ∧
          changed = .buffer holder (data.splice start.toNat record) ∧ written = record.length := by
  obtain ⟨number, _, same⟩ := packInto_eq writable counted format data values source
  rw [BitRecord.packInto, Traced.outcome_bind_of_ok compiled, same]
  by_cases fits : 0 ≤ start ∧ start + format.size ≤ data.length
  · rw [if_pos fits, ← and_assoc, and_iff_right fits, Traced.outcome_bind_eq_ok_iff]
    cases whole : holder.isContiguous with
    | false => simp
    | true =>
        rw [and_iff_right rfl]
        refine exists_congr fun record => and_congr_right fun _ => ?_
        rw [if_pos rfl, Traced.outcome_pure, Except.ok.injEq, Prod.mk.injEq, eq_comm,
          @eq_comm _ _ written]
  · rw [if_neg fits]
    apply iff_of_false
    · intro success
      contradiction
    · intro parts
      exact fits ⟨parts.1, parts.2.1⟩

/-- `packInto` fails with `gappedBuffer` on a view with gaps when everything else is right. -/
theorem packInto_of_gapped (compiled : (compile given).outcome = .ok format)
    (writable : holder.isWritable = true) (counted : offset.count? = some start)
    (gapped : holder.isContiguous = false) (front : 0 ≤ start)
    (behind : start + format.size ≤ data.length)
    (packed : (format.pack values source).outcome = .ok record) :
    (BitRecord.packInto given (.buffer holder data) values offset source).outcome =
      .error (.unplaced .gappedBuffer) := by
  obtain ⟨number, _, same⟩ := packInto_eq writable counted format data values source
  rw [BitRecord.packInto, Traced.outcome_bind_of_ok compiled, same, if_pos ⟨front, behind⟩,
    Traced.outcome_bind_of_ok packed, gapped]
  rfl

/-- When `packInto` succeeds it has spliced a packed record behind an offset that counts bytes. -/
theorem exists_of_packInto {changed : Value} {written : Nat}
    (success : (BitRecord.packInto given (.buffer holder data) values offset source).outcome =
      .ok (changed, written)) :
    ∃ (format : Format) (start : Nat) (record : Bytes), (compile given).outcome = .ok format ∧
      offset.count? = some (start : Int) ∧ start + format.size ≤ data.length ∧
      (format.pack values source).outcome = .ok record ∧ record.length = format.size ∧
      changed = .buffer holder (data.splice start record) ∧ written = record.length := by
  obtain ⟨format, compiled, success⟩ := Traced.outcome_bind_eq_ok_iff.mp success
  obtain ⟨⟨other, held⟩, viewed, success⟩ := Traced.outcome_bind_eq_ok_iff.mp success
  obtain ⟨place, placed, success⟩ := Traced.outcome_bind_eq_ok_iff.mp success
  obtain ⟨record, packed, success⟩ := Traced.outcome_bind_eq_ok_iff.mp success
  have view := Traced.outcome_ofResult_eq_ok_iff.mp viewed
  unfold Value.asWritable at view
  dsimp only at view
  split at view
  · obtain ⟨rfl, rfl⟩ := Prod.mk.inj (Except.ok.inj view)
    have accepted := Traced.outcome_ofResult_eq_ok_iff.mp placed
    split at success
    · contradiction
    cases counts : place.count? with
    | none =>
        rw [counts] at success
        contradiction
    | some start =>
        rw [counts] at success
        obtain ⟨rfl, rfl⟩ := Prod.mk.inj (Except.ok.inj success)
        obtain ⟨front, behind⟩ := Value.fits_of_asOffset accepted counts
        obtain ⟨start, rfl⟩ := Int.eq_ofNat_of_zero_le front
        exact ⟨format, start, record, compiled, Value.count?_of_asOffset accepted counts,
          by omega, packed, length_of_pack (valid_of_compile compiled) packed, rfl, rfl⟩
  · contradiction

/-- `packInto` refuses a record that does not fit with `noRoom`, whatever the values are and without
drawing numbers. Its message quotes the sizes and the offset; when one of them has more digits than
`DigitLimit.digits`, the cause is `longInteger` instead. -/
theorem packInto_of_not_fits (compiled : (compile given).outcome = .ok format)
    (writable : holder.isWritable = true) (counted : offset.count? = some start)
    (outside : ¬ (0 ≤ start ∧ start + format.size ≤ data.length)) (values : Value)
    (source : RandomSource) :
    (∃ number cause, offset.number? = some number ∧
      (BitRecord.packInto given (.buffer holder data) values offset source).outcome =
        .error (.unplaced cause) ∧
      cause.family = .wrongValue ∧
      (format.size < DigitLimit.bound → start.natAbs < DigitLimit.bound →
        cause = .noRoom format.size data.length number ∧
        cause.message =
          s!"{format.size} bytes don't fit into buffer of {data.length} bytes at offset " ++
            number.describe) ∧
      (DigitLimit.bound ≤ format.size ∨ DigitLimit.bound ≤ start.natAbs →
        cause = .longInteger ∧ cause.message = DigitLimit.writeMessage)) ∧
    (BitRecord.packInto given (.buffer holder data) values offset source).draws = [] := by
  obtain ⟨number, known, same⟩ := packInto_eq writable counted format data values source
  rw [if_neg outside] at same
  have drawless : (BitRecord.packInto given (.buffer holder data) values offset source).draws =
      [] := by
    rw [BitRecord.packInto, Traced.draws, Traced.events_bind_of_ok compiled, same,
      Traced.events_fail, List.append_nil]
    exact (compile_prepares given).draws_eq_nil
  have refused := Traced.outcome_bind_of_ok compiled fun format =>
    format.packInto (.buffer holder data) values offset source
  rw [same, Traced.outcome_fail] at refused
  refine ⟨⟨number, _, known, refused, ?_, fun size_short start_short => ?_, fun long => ?_⟩,
    drawless⟩
  · cases DigitLimit.canWrite format.size && DigitLimit.canWrite start <;> rfl
  · rw [DigitLimit.canWrite_natCast_iff.mpr size_short, DigitLimit.canWrite_iff.mpr start_short]
    exact ⟨rfl, rfl⟩
  · have unwritten : (DigitLimit.canWrite format.size && DigitLimit.canWrite start) = false := by
      rw [Bool.and_eq_false_iff, ← Bool.not_eq_true, ← Bool.not_eq_true,
        DigitLimit.canWrite_natCast_iff, DigitLimit.canWrite_iff, Nat.not_lt, Nat.not_lt]
      exact long
    rw [unwritten]
    exact ⟨rfl, rfl⟩

/-- `packInto` splices a record into a buffer or leaves it as it was. On a buffer that can change,
with an offset that counts bytes and a source in range, it succeeds exactly when the record fits
behind the offset, `Format.bind` accepts the values and the buffer is contiguous; then the bytes of
`pack` are in their place and all others as they were. A record that does not fit is refused with
`noRoom` whatever the values are and before any number is drawn, and a view with gaps with
`gappedBuffer`. No failure, of any arguments whatever, has changed the buffer in place. -/
theorem packInto_splices (compiled : (compile given).outcome = .ok format)
    (writable : holder.isWritable = true) (counted : offset.count? = some start)
    (in_range : source.InRange) :
    ((∃ result, (BitRecord.packInto given (.buffer holder data) values offset source).outcome =
        .ok result) ↔
      0 ≤ start ∧ start + format.size ≤ data.length ∧
        (∃ arguments, (format.bind values).outcome = .ok arguments) ∧
        holder.isContiguous = true) ∧
    (∀ changed written,
      (BitRecord.packInto given (.buffer holder data) values offset source).outcome =
        .ok (changed, written) →
      written = format.size ∧
      ∃ after, changed = .buffer holder after ∧ after.length = data.length ∧
        (BitRecord.pack given values source).outcome =
          .ok (after.slice start.toNat format.size) ∧
        ∀ index, index < start.toNat ∨ start.toNat + format.size ≤ index →
          after[index]? = data[index]?) ∧
    (¬ (0 ≤ start ∧ start + format.size ≤ data.length) →
      ∀ (others : Value) (another : RandomSource),
        (∃ number cause, offset.number? = some number ∧
          (BitRecord.packInto given (.buffer holder data) others offset another).outcome =
            .error (.unplaced cause) ∧
          cause.family = .wrongValue ∧
          (format.size < DigitLimit.bound → start.natAbs < DigitLimit.bound →
            cause = .noRoom format.size data.length number ∧
            cause.message =
              s!"{format.size} bytes don't fit into buffer of {data.length} bytes at offset " ++
                number.describe) ∧
          (DigitLimit.bound ≤ format.size ∨ DigitLimit.bound ≤ start.natAbs →
            cause = .longInteger ∧ cause.message = DigitLimit.writeMessage)) ∧
        (BitRecord.packInto given (.buffer holder data) others offset another).draws = []) ∧
    (0 ≤ start → start + format.size ≤ data.length →
      (∃ arguments, (format.bind values).outcome = .ok arguments) → holder.isContiguous = false →
      (BitRecord.packInto given (.buffer holder data) values offset source).outcome =
        .error (.unplaced .gappedBuffer) ∧
      Cause.gappedBuffer.family = .wrongClass ∧
      Cause.gappedBuffer.message = "memoryview: casts are restricted to C-contiguous views") ∧
    (∀ (given values buffer offset : Value) (source : RandomSource),
      BitRecord.packInPlace given values offset source buffer =
        (Prod.snd <$> BitRecord.packInto given buffer values offset source,
          bufferAfter buffer (BitRecord.packInto given buffer values offset source)) ∧
      ∀ failure, (BitRecord.packInPlace given values offset source buffer).1.outcome =
          .error failure →
        (BitRecord.packInPlace given values offset source buffer).2 = buffer) := by
  have valid := valid_of_compile compiled
  have packs {arguments : List Argument} (bound : (format.bind values).outcome = .ok arguments) :
      ∃ record, (format.pack values source).outcome = .ok record := by
    obtain ⟨numbers, answered⟩ := in_range.exists_answers #[] format.requests
    exact ⟨_, pack_outcome in_range valid bound answered⟩
  refine ⟨⟨fun success => ?_, fun parts => ?_⟩, fun changed written success => ?_,
    fun outside others another =>
      packInto_of_not_fits compiled writable counted outside others another,
    fun front behind accepted gapped => ?_,
    fun given values buffer offset source =>
      ⟨packInPlace_eq given values buffer offset source, fun _ => packInPlace_of_error⟩⟩
  · obtain ⟨⟨changed, written⟩, success⟩ := success
    obtain ⟨front, behind, whole, record, packed, _⟩ :=
      (packInto_outcome_eq_ok_iff compiled writable counted).mp success
    obtain ⟨arguments, bound, _⟩ := Traced.outcome_bind_eq_ok_iff.mp packed
    exact ⟨front, behind, ⟨arguments, bound⟩, whole⟩
  · obtain ⟨front, behind, ⟨arguments, bound⟩, whole⟩ := parts
    obtain ⟨record, packed⟩ := packs bound
    exact ⟨_, (packInto_outcome_eq_ok_iff compiled writable counted).mpr
      ⟨front, behind, whole, record, packed, rfl, rfl⟩⟩
  · obtain ⟨front, behind, _, record, packed, rfl, rfl⟩ :=
      (packInto_outcome_eq_ok_iff compiled writable counted).mp success
    have size := length_of_pack valid packed
    have fits : start.toNat + record.length ≤ data.length := by omega
    refine ⟨size, _, rfl, Bytes.length_splice fits, ?_, fun index outside =>
      Bytes.getElem?_splice fits (by rwa [size])⟩
    rw [BitRecord.pack, Traced.outcome_bind_of_ok compiled, packed, ← size,
      Bytes.slice_splice fits]
  · obtain ⟨arguments, bound⟩ := accepted
    obtain ⟨record, packed⟩ := packs bound
    exact ⟨packInto_of_gapped compiled writable counted gapped front behind packed, rfl, rfl⟩

/-- Seven bytes from the second one of a view of words on: the offset counts bytes, and the bytes
around the record stay. One byte later the record does not fit. -/
theorem packInto_splices_mixed :
    (∃ after, (BitRecord.packInto mixed.given (.buffer (.wordView .whole) [9, 0, 0, 0, 0, 0, 0, 8])
        mixedValues (.integer 1) (.cyclic #[1])).outcome =
          .ok (.buffer (.wordView .whole) after, 7) ∧
      (BitRecord.pack mixed.given mixedValues (.cyclic #[1])).outcome = .ok (after.slice 1 7) ∧
      after.length = 8 ∧ after[0]? = some 9) ∧
    (BitRecord.packInto mixed.given (.buffer (.wordView .whole) [9, 0, 0, 0, 0, 0, 0, 8])
        (.list []) (.integer 2) (.finite #[])).outcome =
      .error (.unplaced (.noRoom 7 8 (.integer 2))) := by
  have in_range := RandomSource.inRange_cyclic (show 0 < (#[1] : Array Int).size by decide)
  apply And.intro
  · obtain ⟨succeeds, splices, _⟩ := @packInto_splices mixed.given mixedValues (.integer 1)
      (.cyclic #[1]) mixed (.wordView .whole) [9, 0, 0, 0, 0, 0, 0, 8] 1 compile_mixed rfl rfl
      in_range
    obtain ⟨⟨changed, written⟩, success⟩ :=
      succeeds.mpr ⟨by decide, by decide, ⟨_, bind_mixedValues⟩, rfl⟩
    obtain ⟨rfl, after, rfl, length, packed, others⟩ := splices changed written success
    exact ⟨after, success, packed, length, others 0 (.inl (by decide))⟩
  · obtain ⟨_, _, refuses, _⟩ := @packInto_splices mixed.given mixedValues (.integer 2)
      (.cyclic #[1]) mixed (.wordView .whole) [9, 0, 0, 0, 0, 0, 0, 8] 2 compile_mixed rfl rfl
      in_range
    obtain ⟨⟨number, cause, known, refused, _, quoted, _⟩, _⟩ :=
      refuses (by decide) (.list []) (.finite #[])
    obtain rfl := Option.some.inj known
    obtain ⟨rfl, _⟩ := quoted (DigitLimit.lt_bound_of_lt_pow (show 7 < 10 ^ (1 : Nat) by decide)
      (by decide)) (DigitLimit.lt_bound_of_lt_pow (show 2 < 10 ^ (1 : Nat) by decide) (by decide))
    exact refused

private theorem size_words {count : Nat}
    (own : format.directives = [.field ⟨.word64, count, .native, false, some .zeros, .scalar⟩]) :
    format.size = 8 * count := by
  have bits : format.bitSize = 0 + 64 * count := by
    rw [bitSize, own]
    rfl
  rw [Format.size, bits]
  omega

/-- Seven bytes fit into a view of eight bytes with gaps, and the values suit, but `packInto` fails
with `gappedBuffer`. A record whose size has too many digits does not fit into one byte, and the
failure is `longInteger` instead of `noRoom`. -/
theorem packInto_splices_gapped :
    (Holder.isWritable (.view .gapped) = true ∧ mixed.size ≤ 8 ∧
      (∃ arguments, (mixed.bind mixedValues).outcome = .ok arguments) ∧
      (BitRecord.packInto mixed.given (.buffer (.view .gapped) [0, 0, 0, 0, 0, 0, 0, 0])
        mixedValues (.integer 0) (.cyclic #[1])).outcome = .error ⟨.gappedBuffer, none⟩ ∧
      Cause.gappedBuffer.family = .wrongClass) ∧
    let field : Field := ⟨.word64, DigitLimit.bound - 1, .native, false, some .zeros, .scalar⟩
    (BitRecord.packInto (.text (print [.field field])) (.buffer .byteArray [0]) (.list [])
      (.integer 0) (.finite #[])).outcome = .error ⟨.longInteger, none⟩ ∧
      Cause.longInteger.message = DigitLimit.writeMessage := by
  apply And.intro
  · have in_range := RandomSource.inRange_cyclic (show 0 < (#[1] : Array Int).size by decide)
    have valid := valid_of_compile compile_mixed
    obtain ⟨numbers, answered⟩ := in_range.exists_answers #[] mixed.requests
    have packed := pack_outcome in_range valid bind_mixedValues answered
    refine ⟨rfl, by decide, ⟨_, bind_mixedValues⟩, ?_, rfl⟩
    exact packInto_of_gapped compile_mixed rfl rfl rfl (by decide) (by decide) packed
  · intro field
    have large := DigitLimit.one_lt_bound
    have valid : field.Valid := ⟨Nat.sub_pos_of_lt large, nofun, nofun, fun _ _ => .inr nofun⟩
    obtain ⟨format, compiled, own⟩ := Field.exists_format valid (Nat.sub_one_lt_of_lt large)
    have size : format.size = 8 * (DigitLimit.bound - 1) := size_words own
    have outside : ¬ ((0 : Int) ≤ 0 ∧ 0 + (format.size : Int) ≤ ([0] : Bytes).length) := by
      rw [size, List.length_singleton]
      omega
    obtain ⟨⟨number, cause, _, refused, _, _, unwritten⟩, _⟩ :=
      @packInto_of_not_fits _ (.integer 0) format .byteArray [0] 0 compiled rfl rfl outside
        (.list []) (.finite #[])
    obtain ⟨rfl, _⟩ := unwritten (.inl (by omega))
    exact ⟨refused, rfl⟩

end Format

end BitRecord
