/-
# Runs of a writer

A writer only ever appends. A request contributes a string of bits at the position
of the writer, which is empty for a request that is refused and for one that only
reads the bytes (`Request.tell`). So after a run the writer holds the
contributions of the run one after the other, and a run has the same results
without the requests whose contribution is empty.
-/

import BitRecord.Cursor.Motion
import BitRecord.Proofs.Bits.ByteOrder
import BitRecord.Proofs.Codec.Encoding
import BitRecord.Proofs.Cursor.Mirror

namespace BitRecord.Writer

/-- The bits that a request appends at a position. -/
def Request.contribution (position : Nat) : Request → Bits
  | .write .align => List.replicate (toBoundary position) false
  | .write (.bits bits) => bits
  | .write (.unsigned order width value) => (Bits.ofUnsigned? order width value).getD []
  | .write (.bytes bytes) => Bits.ofBytes bytes
  | .tell => []

/-- The contributions of requests, one after the other, from a position on. -/
def contributions : (position : Nat) → List Request → List Bits
  | _, [] => []
  | position, request :: requests =>
      let bits := request.contribution position
      bits :: contributions (position + bits.length) requests

/-- The reply to a request that is not refused. -/
def reply (writer : Writer) : Request → Reply
  | .write .align => .padding writer.padding
  | .write _ => .done
  | .tell => .told writer.bytes

/-- Whether a request writes an integer for which `Bits.ofUnsigned?` gives nothing. -/
def Request.Unfit (request : Request) : Prop :=
  ∃ order width value, request = .write (.unsigned order width value) ∧
    (width ≤ 0 ∨ value < 0 ∨ 2 ^ width.toNat ≤ value)

/-- The contract of one request to a writer: `standing` is the writer before it, `made` its result
and `left` the writer after it. -/
structure Keeps (request : Request) (standing : Writer) (made : Except Cause Reply)
    (left : Writer) : Prop where
  /-- The writer only appends, and its position counts every bit. -/
  appends : ∃ bits, left.bits = standing.bits ++ bits ∧
    left.position = standing.position + bits.length
  /-- Bits are written as they are. -/
  bits : ∀ bits, request = .write (.bits bits) → left.bits = standing.bits ++ bits
  /-- An integer is written in its width and its order. -/
  unsigned : ∀ order width value, request = .write (.unsigned order width value) →
    ¬ request.Unfit → ∃ bits, left.bits = standing.bits ++ bits ∧
      bits.length = width ∧ bits.valueIn order = value
  /-- Bytes are written from their most significant bits. -/
  bytes : ∀ bytes, request = .write (.bytes bytes) →
    left.bits = standing.bits ++ Bits.ofBytes bytes
  /-- Alignment writes zeros up to the next byte boundary, where there are none to write. -/
  aligned : request = .write .align → ∃ padding : Nat,
    (padding : Int) = -(standing.position : Int) % 8 ∧ made = .ok (.padding padding) ∧
    left.bits = standing.bits ++ List.replicate padding false ∧
    (ask (.write .align)).run.run left = (.ok (.padding 0), left)
  /-- The bytes are the bits so far and the zeros that complete the last byte. -/
  told : ∃ bytes zeros, (ask .tell).run.run standing = (.ok (.told bytes), standing) ∧
    zeros < 8 ∧ Bits.ofBytes bytes = standing.bits ++ List.replicate zeros false
  /-- Only an unfit request is refused. -/
  refused : (∃ cause, made = .error cause) ↔ request.Unfit
  /-- A refused request leaves the writer as it was. -/
  unmoved : ∀ cause, made = .error cause → left = standing

variable {writer standing left start : Writer} {request : Request} {made : Except Cause Reply}

/-- Zeros up to the next byte boundary are as many as the position lacks modulo eight. -/
theorem toBoundary_eq_emod (position : Nat) :
    (toBoundary position : Int) = -(position : Int) % 8 := by
  rw [toBoundary]
  omega

theorem putPadding_run (writer : Writer) :
    putPadding.run.run writer = (.ok writer.padding, writer.align) := by
  rw [putPadding, Motion.run_bind_of_ok (Motion.run_get writer)]
  by_cases aligned : writer.padding = 0
  · rw [if_neg (not_not_intro aligned), align, aligned, List.replicate_zero, append_nil]
    rfl
  · rw [if_pos aligned]
    rfl

theorem putBytes_run (bytes : Bytes) (writer : Writer) :
    (putBytes bytes).run.run writer = (.ok (), writer.appendBytes bytes) := by
  cases bytes with
  | nil => exact congrArg (Prod.mk _) (append_nil writer).symm
  | cons byte bytes => rfl

/-- `ofUnsigned?` gives nothing exactly for an integer outside of its width. -/
theorem ofUnsigned?_eq_none_iff {order : Order} {width value : Int} :
    Bits.ofUnsigned? order width value = none ↔
      width ≤ 0 ∨ value < 0 ∨ 2 ^ width.toNat ≤ value := by
  rw [Bits.ofUnsigned?]
  split
  · rename_i fits
    simp only [reduceCtorEq, false_iff]
    omega
  · rename_i unfit
    simp only [true_iff]
    omega

theorem unfit_unsigned_iff {order : Order} {width value : Int} :
    Request.Unfit (.write (.unsigned order width value)) ↔
      Bits.ofUnsigned? order width value = none := by
  rw [ofUnsigned?_eq_none_iff]
  apply Iff.intro
  · rintro ⟨order, width, value, same, unfit⟩
    obtain ⟨rfl, rfl, rfl⟩ := Step.unsigned.inj (Request.write.inj same)
    exact unfit
  · exact fun unfit => ⟨order, width, value, rfl, unfit⟩

/-- `ask` refuses an unfit request, whose contribution is empty. -/
theorem ask_of_unfit (unfit : request.Unfit) :
    (ask request).run.run writer = (.error .unrepresentable, writer) ∧
      request.contribution writer.position = [] := by
  obtain ⟨order, width, value, rfl, outside⟩ := unfit
  have formless := @ofUnsigned?_eq_none_iff order width value |>.mpr outside
  have refused : (putUnsigned order width value).run.run writer =
      (.error .unrepresentable, writer) := by
    rw [putUnsigned, formless]
    rfl
  refine ⟨Motion.run_map_of_error refused _, ?_⟩
  rw [Request.contribution, formless, Option.getD_none]

/-- `ask` gives the reply to every other request and appends its contribution. -/
theorem ask_of_fit (fit : ¬ request.Unfit) :
    (ask request).run.run writer =
      (.ok (writer.reply request), writer.append (request.contribution writer.position)) := by
  cases request with
  | tell =>
      rw [Request.contribution, append_nil]
      rfl
  | write step =>
      cases step with
      | align => exact Motion.run_map_of_ok (putPadding_run writer) _
      | bits bits => rfl
      | bytes bytes => exact Motion.run_map_of_ok (putBytes_run bytes writer) _
      | unsigned order width value =>
          rw [unfit_unsigned_iff, ← ne_eq, Option.ne_none_iff_exists'] at fit
          obtain ⟨bits, form⟩ := fit
          have put : (putUnsigned order width value).run.run writer =
              (.ok (), writer.append bits) := by
            rw [putUnsigned, form]
            rfl
          rw [Request.contribution, form, Option.getD_some]
          exact Motion.run_map_of_ok put _

/-- `ask` appends the contribution of every request. -/
theorem ask_left (request : Request) (writer : Writer) :
    ((ask request).run.run writer).2 = writer.append (request.contribution writer.position) := by
  by_cases fit : request.Unfit
  · obtain ⟨refused, nothing⟩ := @ask_of_unfit writer _ fit
    rw [refused, nothing, append_nil]
  · rw [ask_of_fit fit]

/-- The zeros behind the bits so far are fewer than a byte. -/
theorem ofBytes_bytes (writer : Writer) :
    Bits.ofBytes writer.bytes = writer.bits ++ List.replicate writer.padding false := by
  rw [bytes, Bits.ofBytes_toBytes, Bits.completed, length_bits]
  rfl

/-- A second alignment writes nothing. -/
theorem ask_align_again (aligned : left.position % 8 = 0) :
    (ask (.write .align)).run.run left = (.ok (.padding 0), left) := by
  have none : left.padding = 0 := toBoundary_eq_zero_iff.mpr aligned
  have put := putPadding_run left
  rw [none, align, none, List.replicate_zero, append_nil] at put
  exact Motion.run_map_of_ok put _

/-- One request keeps the contract. -/
theorem keeps (asked : (ask request).run.run standing = (made, left)) :
    Keeps request standing made left := by
  have left_eq : left = standing.append (request.contribution standing.position) := by
    rw [← ask_left, asked]
  have left_bits : left.bits = standing.bits ++ request.contribution standing.position := by
    rw [left_eq, bits_append]
  have refused : (∃ cause, made = .error cause) ↔ request.Unfit := by
    by_cases unfit : request.Unfit
    · rw [(ask_of_unfit unfit).1] at asked
      exact iff_of_true ⟨_, (Prod.mk.inj asked).1.symm⟩ unfit
    · rw [ask_of_fit unfit] at asked
      obtain ⟨rfl, -⟩ := Prod.mk.inj asked
      exact iff_of_false (fun ⟨_, error⟩ => by contradiction) unfit
  exact {
    appends := ⟨_, left_bits, by rw [left_eq, position_append]⟩
    bits := by
      rintro bits rfl
      exact left_bits
    unsigned := by
      rintro order width value rfl fit
      have formed := mt unfit_unsigned_iff.mpr fit
      obtain ⟨bits, form⟩ := Option.ne_none_iff_exists'.mp formed
      have value_nonneg : 0 ≤ value := by
        by_contra negative
        exact fit ⟨order, width, value, rfl, .inr (.inl (Int.not_le.mp negative))⟩
      rw [Request.contribution, form, Option.getD_some] at left_bits
      refine ⟨bits, left_bits, Bits.length_of_ofUnsigned? form, ?_⟩
      rw [Bits.valueIn_of_ofUnsigned? form, Int.toNat_of_nonneg value_nonneg]
    bytes := by
      rintro bytes rfl
      exact left_bits
    aligned := by
      rintro rfl
      have whole : left.position % 8 = 0 := by
        rw [left_eq]
        exact standing.position_align_mod
      rw [ask_of_fit fun ⟨_, _, _, other, _⟩ => by simp at other] at asked
      exact ⟨standing.padding, toBoundary_eq_emod _, (Prod.mk.inj asked).1.symm, left_bits,
        ask_align_again whole⟩
    told := ⟨standing.bytes, standing.padding, rfl, toBoundary_lt _, standing.ofBytes_bytes⟩
    refused := refused
    unmoved := by
      intro cause error
      rw [left_eq, (ask_of_unfit (refused.mp ⟨cause, error⟩)).2, append_nil] }

/-- After any requests a writer holds what it held before and their contributions. -/
theorem askAll_left (requests : List Request) (writer : Writer) :
    ((askAll requests).run writer).2 =
      writer.append (contributions writer.position requests).flatten := by
  induction requests generalizing writer with
  | nil => exact (append_nil writer).symm
  | cons request requests ih =>
      rw [askAll, Motion.left_all_cons, ask_left, ← askAll, ih, append_append, position_append,
        contributions, List.flatten_cons]

/-- The bits written so far stay in front of all later ones. -/
theorem bits_prefix_askAll (requests : List Request) (writer : Writer) :
    writer.bits <+: ((askAll requests).run writer).2.bits := by
  rw [askAll_left, bits_append]
  exact List.prefix_append _ _

/-- `ask` leaves the writer of `after`. -/
theorem ask_left_eq_after (step : Step) (writer : Writer) :
    ((ask (.write step)).run.run writer).2 = writer.after step := by
  rw [ask_left, after]
  cases step with
  | align | bits | bytes => rfl
  | unsigned order width value =>
      rw [Request.contribution, perform?, appendUnsigned?]
      cases Bits.ofUnsigned? order width value with
      | none => exact append_nil writer
      | some bits => rfl

/-- `askAll` leaves the writer that `after` reaches step by step. -/
theorem askAll_left_eq_foldl (steps : List Step) (writer : Writer) :
    ((askAll (steps.map .write)).run writer).2 = steps.foldl after writer := by
  induction steps generalizing writer with
  | nil => rfl
  | cons step steps ih =>
      rw [List.map_cons, askAll, Motion.left_all_cons, ask_left_eq_after, ← askAll, ih,
        List.foldl_cons]

/-- At every request of a run of `askAll` from the empty writer the contract `Keeps` holds, whatever
the requests before it have done. The writer holds the contributions so far, one after the other,
its position counts these bits, and they stay in front of all that is written later. A run without a
refused request, or without one for the bytes, gives the other replies unchanged. -/
theorem writer_keeps_through_runs (before : List Request) (request : Request)
    (after : List Request) :
    (∀ steps : List Step, ((askAll (steps.map .write)).run empty).2 =
      steps.foldl Writer.after empty) ∧
    ∃ earlier standing made left later final,
      (askAll before).run empty = (earlier, standing) ∧
      (ask request).run.run standing = (made, left) ∧
      (askAll after).run left = (later, final) ∧
      earlier.length = before.length ∧
      (askAll (before ++ request :: after)).run empty = (earlier ++ made :: later, final) ∧
      Keeps request standing made left ∧
      standing.bits = (contributions 0 before).flatten ∧
      standing.position = ((contributions 0 before).map List.length).sum ∧
      standing.bits <+: final.bits ∧
      ((∃ cause, made = .error cause) ∨ request = .tell →
        (askAll (before ++ after)).run empty = (earlier ++ later, final)) := by
  rcases first : (askAll before).run empty with ⟨earlier, standing⟩
  rcases asked : (ask request).run.run standing with ⟨made, left⟩
  rcases others : (askAll after).run left with ⟨later, final⟩
  have kept : Keeps request standing made left := keeps asked
  have count : earlier.length = before.length := by
    rw [← Motion.length_all ask before empty, ← askAll, first]
  have standing_bits : standing.bits = (contributions 0 before).flatten := by
    have held : standing = _ := first ▸ askAll_left before empty
    rw [held, bits_append]
    rfl
  have later_bits : left.bits <+: final.bits := by
    have behind := bits_prefix_askAll after left
    rwa [others] at behind
  refine ⟨fun steps => askAll_left_eq_foldl steps empty, earlier, standing, made, left, later,
    final, rfl, asked, others, count, Motion.all_append first (Motion.all_cons asked others),
    kept, standing_bits, ?_, ?_, ?_⟩
  · rw [← length_bits, standing_bits, List.length_flatten]
  · obtain ⟨bits, appended, -⟩ := kept.appends
    rw [appended] at later_bits
    exact (List.prefix_append _ bits).trans later_bits
  · intro idle
    have unmoved : left = standing := by
      rcases idle with ⟨cause, error⟩ | rfl
      · exact kept.unmoved cause error
      · exact (Prod.mk.inj asked).2.symm
    rw [unmoved] at others
    exact Motion.all_append first others

end BitRecord.Writer
