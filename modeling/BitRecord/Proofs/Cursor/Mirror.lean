/-
# Reading back what was written

Every step of a writer has a mirror: the step of a reader that takes as much as
was written. A reader over the bytes of a writer that takes the mirrored steps in
turn stands, before each of them, where the writer stood, and takes what the
writer put there. At the end only the zeros that complete the last byte are left.
Nothing here depends on byte boundaries but the alignment itself, so the order of
wide words does not matter as long as it is the same on both sides.
-/

import BitRecord.Cursor.Writer
import BitRecord.Proofs.Cursor.Reader

namespace BitRecord

namespace Reader

/-- The result of each step, made one after the other, with the position in front of it. -/
def run (reader : Reader) : List Step → List (Nat × Except Cause Taken)
  | [] => []
  | step :: steps =>
      (reader.position, (reader.perform step).map (·.1)) :: run (reader.after step) steps

/-- The reader after all steps. -/
def afterAll (reader : Reader) (steps : List Step) : Reader := steps.foldl after reader

end Reader

namespace Writer

/-- Makes all steps in turn, unless one of them is refused. -/
def performAll? (writer : Writer) (steps : List Step) : Option Writer :=
  steps.foldlM perform? writer

/-- Whether a step is accepted: an integer must be below `2 ^ width`. -/
def Step.Fits : Step → Prop
  | .unsigned _ width value => 0 < width ∧ 0 ≤ value ∧ value < 2 ^ width.toNat
  | .align | .bits _ | .bytes _ => True

/-- The step of a reader that reads back a step of a writer. -/
def Step.mirror : Step → Reader.Step
  | .align => .align
  | .bits content => .bits content.length
  | .unsigned order width _ => .unsigned order width
  | .bytes data => .bytes data.length

/-- The bits that a step adds. -/
def added (writer : Writer) : Step → Bits
  | .align => List.replicate writer.padding false
  | .bits bits => bits
  | .unsigned order width value => (Bits.ofNat width.toNat value.toNat).arrange order
  | .bytes bytes => Bits.ofBytes bytes

/-- The result of the mirrored step. -/
def put (writer : Writer) : Step → Reader.Taken
  | .align => .padding writer.padding
  | .bits bits => .bits bits
  | .unsigned _ _ value => .unsigned value.toNat
  | .bytes bytes => .bytes bytes

/-- The results of the mirrored steps, each with the position in front of it. -/
def visits (writer : Writer) : List Step → List (Nat × Reader.Taken)
  | [] => []
  | step :: steps => (writer.position, writer.put step) :: visits (writer.after step) steps

variable {writer following final : Writer} {step : Step} {steps : List Step}

/-- `perform?` succeeds exactly on a step that fits, and appends the bits it adds. -/
theorem perform?_eq_some_iff :
    writer.perform? step = some following ↔
      step.Fits ∧ following = writer.append (writer.added step) := by
  cases step with
  | align | bits | bytes => simp [perform?, Step.Fits, added, align, appendBytes, eq_comm]
  | unsigned order width value =>
      rw [perform?, appendUnsigned?, Bits.ofUnsigned?, Step.Fits]
      split
      · rename_i fits
        simp [fits, added, eq_comm]
      · rename_i unfit
        simp [unfit]

/-- `performAll?` succeeds exactly when every step fits. -/
theorem exists_performAll?_iff :
    (∃ final, writer.performAll? steps = some final) ↔ ∀ step ∈ steps, step.Fits := by
  induction steps generalizing writer with
  | nil => simp [performAll?]
  | cons step steps ih =>
      rw [List.forall_mem_cons, performAll?, List.foldlM_cons]
      cases performed : writer.perform? step with
      | none =>
          have unfit : ¬ step.Fits := fun fits => by
            rw [perform?_eq_some_iff.mpr ⟨fits, rfl⟩] at performed
            contradiction
          simp [unfit]
      | some following =>
          have fits := (perform?_eq_some_iff.mp performed).1
          exact ih.trans (iff_and_self.mpr fun _ => fits)

/-- A reader in front of the bits of a step reads back what was put there. -/
theorem perform_mirror {reader : Reader} {behind : Bits} (fits : step.Fits)
    (together : reader.position = writer.position)
    (ahead : reader.rest = writer.added step ++ behind) :
    reader.perform step.mirror =
      .ok (writer.put step, reader.move (writer.added step).length) := by
  have enough : (writer.added step).length ≤ reader.remaining := by
    rw [← Reader.length_rest, ahead, List.length_append]
    exact Nat.le_add_right _ _
  have front : reader.rest.take (writer.added step).length = writer.added step := by
    rw [ahead, List.take_left]
  cases step with
  | align =>
      have padding : reader.padding = writer.padding := congrArg toBoundary together
      have length : (writer.added .align).length = reader.padding := by
        rw [added, List.length_replicate, padding]
      rw [length] at enough ⊢
      rw [Step.mirror, Reader.perform, Reader.align_of_le enough, put, ← padding]
      rfl
  | bits bits =>
      rw [added] at enough front
      rw [Step.mirror, Reader.perform, Reader.take_of_le enough, front]
      rfl
  | bytes bytes =>
      rw [added, Bits.length_ofBytes] at enough front
      rw [Step.mirror, Reader.perform, Reader.takeBytes_of_le enough, front, Bits.toBytes_ofBytes,
        added, Bits.length_ofBytes]
      rfl
  | unsigned order width value =>
      obtain ⟨width_pos, natural, small⟩ := fits
      obtain ⟨width, rfl⟩ := Int.eq_ofNat_of_zero_le (Int.le_of_lt width_pos)
      obtain ⟨value, rfl⟩ := Int.eq_ofNat_of_zero_le natural
      simp only [added, Int.toNat_natCast, Bits.length_arrange, Bits.length_ofNat] at *
      have small : value < 2 ^ width := by exact_mod_cast small
      rw [Step.mirror, Reader.perform, Reader.takeUnsigned_of_le order (by omega) enough, front,
        Bits.arrange_arrange, Bits.toNat_ofNat, Nat.mod_eq_of_lt small]
      rfl

/-- Accepted steps only append, and a reader in front of what they append reads it back step by
step. -/
theorem run_mirror {reader : Reader} (written : writer.performAll? steps = some final) :
    ∃ bits, final.bits = writer.bits ++ bits ∧
      ∀ behind, reader.position = writer.position → reader.rest = bits ++ behind →
        reader.run (steps.map Step.mirror) =
            (writer.visits steps).map (fun visit => (visit.1, .ok visit.2)) ∧
          reader.afterAll (steps.map Step.mirror) = reader.move bits.length := by
  induction steps generalizing writer reader with
  | nil =>
      obtain rfl : writer = final := Option.some.inj written
      exact ⟨[], (List.append_nil _).symm, fun behind _ _ => ⟨rfl, rfl⟩⟩
  | cons step steps ih =>
      rw [performAll?, List.foldlM_cons] at written
      obtain ⟨following, performed, others⟩ := Option.bind_eq_some_iff.mp written
      obtain ⟨fits, rfl⟩ := perform?_eq_some_iff.mp performed
      obtain ⟨bits, later_bits, taken⟩ :=
        @ih (writer.append (writer.added step)) (reader.move (writer.added step).length) others
      have after_step : writer.after step = writer.append (writer.added step) := by
        rw [after, performed, Option.getD_some]
      refine ⟨writer.added step ++ bits, ?_, fun behind together ahead => ?_⟩
      · rw [later_bits, bits_append, List.append_assoc]
      · rw [List.append_assoc] at ahead
        have first := perform_mirror fits together ahead
        have reader_after : reader.after step.mirror = reader.move (writer.added step).length := by
          rw [Reader.after, first]
        obtain ⟨visits, last⟩ := taken behind
          (by rw [position_append, ← together]; rfl)
          (by rw [Reader.rest_moved, ahead, List.drop_left])
        apply And.intro
        · rw [List.map_cons, Reader.run, Writer.visits, List.map_cons, first, reader_after, visits,
            after_step, together]
          rfl
        · rw [Reader.afterAll, List.map_cons, List.foldl_cons, reader_after]
          exact last.trans (by rw [Reader.move_move, List.length_append])

/-- A writer accepts steps exactly when each integer among them fits in its width. A reader over the
bytes written then makes each mirrored step: it stands in front of it where the writer stood, and
reads what the writer put there. At the end it stands where the writer stands, and fewer than eight
bits are left, all of them zeros. -/
theorem reader_mirrors_writer (steps : List Step) :
    ((∃ final, empty.performAll? steps = some final) ↔ ∀ step ∈ steps, step.Fits) ∧
    ∀ final, empty.performAll? steps = some final →
      ∃ reader last, Reader.ofValue (.buffer .bytes final.bytes) .null = .ok reader ∧
        reader.run (steps.map Step.mirror) =
          (empty.visits steps).map (fun visit => (visit.1, .ok visit.2)) ∧
        reader.afterAll (steps.map Step.mirror) = last ∧
        last.position = final.position ∧ last.remaining < 8 ∧
        last.rest = List.replicate last.remaining false := by
  refine ⟨exists_performAll?_iff, fun final written => ?_⟩
  let reader := Reader.ofBytes final.bytes
  obtain ⟨bits, whole, taken⟩ := @run_mirror _ _ _ reader written
  obtain rfl : final.bits = bits := whole
  have ahead : reader.rest = final.bits ++ List.replicate final.padding false := by
    rw [Reader.rest_ofBytes, bytes, Bits.ofBytes_toBytes, Bits.completed, length_bits]
    rfl
  obtain ⟨visits, last⟩ := taken _ rfl ahead
  have behind : (reader.move final.bits.length).rest = List.replicate final.padding false := by
    rw [Reader.rest_moved, ahead, List.drop_left]
  have remaining : (reader.move final.bits.length).remaining = final.padding := by
    rw [← Reader.length_rest, behind, List.length_replicate]
  refine ⟨reader, _, Reader.ofValue_null _, visits, last, ?_, ?_, ?_⟩
  · rw [Reader.move, length_bits]
    exact Nat.zero_add _
  · rw [remaining]
    exact toBoundary_lt _
  · rw [behind, remaining]

/-- A little-endian word off a byte boundary, an empty byte string, and a word of three bytes. -/
theorem reader_mirrors_writer_unaligned :
    ∃ final reader, empty.performAll? [.bits [true, false, true], .unsigned .little 16 0x1234,
        .bytes [], .align, .unsigned .little 24 7] = some final ∧
      Reader.ofValue (.buffer .bytes final.bytes) .null = .ok reader ∧
      reader.run [.bits 3, .unsigned .little 16, .bytes 0, .align, .unsigned .little 24] =
        [(0, .ok (.bits [true, false, true])), (3, .ok (.unsigned 0x1234)), (19, .ok (.bytes [])),
          (19, .ok (.padding 5)), (24, .ok (.unsigned 7))] := by
  obtain ⟨final, written⟩ := (reader_mirrors_writer [.bits [true, false, true],
    .unsigned .little 16 0x1234, .bytes [], .align, .unsigned .little 24 7]).1.mpr
      (by simp [Step.Fits])
  obtain ⟨reader, _, readable, visits, _⟩ := (reader_mirrors_writer _).2 final written
  exact ⟨final, reader, written, readable, visits.trans (by rfl)⟩

end Writer

end BitRecord
