/-
# When encoding succeeds

Encoding a payload of the right sort fails only for an integer that does not fit
in its width, and encoding a fill only for such a number or for a source that
refuses one. So it succeeds exactly when the source answers and all entries fit,
whatever the payload; nothing is assumed here about where it came from.
-/

import BitRecord.Proofs.Codec.Encoding

namespace BitRecord

namespace Emission

/-- `appendUnsigned` succeeds exactly on an integer that fits. -/
theorem appendUnsigned_outcome (emission : Emission) (order : Order) (width value : Nat) :
    (emission.appendUnsigned order width value).outcome =
      if Entry.Fits ⟨width, value⟩ then
        .ok (emission.extend ((Bits.ofNat width value).arrange order) [])
      else .error (.unplaced .unrepresentable) := by
  by_cases fits : Entry.Fits ⟨width, value⟩
  · rw [if_pos fits, appendUnsigned_eq emission order fits.1 fits.2, Traced.outcome_pure]
  · have missing := Entry.ofUnsigned?_eq_none fits order
    rw [if_neg fits, appendUnsigned, Writer.appendUnsigned?, missing]
    rfl

/-- When `appendRandom` succeeds, the number it adds was drawn and fits. -/
theorem exists_of_appendRandom {source : RandomSource} {emission following : Emission} {width : Nat}
    (added : (emission.appendRandom source width).outcome = .ok following) :
    ∃ number, source.answer emission.asked width = .ok number ∧ Entry.Fits ⟨width, number⟩ := by
  rw [appendRandom] at added
  obtain ⟨number, accepted, rest⟩ := Traced.outcome_bind_eq_ok_iff.mp added
  obtain ⟨_, _, written⟩ := Traced.outcome_bind_eq_ok_iff.mp rest
  refine ⟨number, Traced.outcome_ofResult_eq_ok_iff.mp accepted, ?_⟩
  by_cases fits : Entry.Fits ⟨width, number⟩
  · exact fits
  · rw [appendUnsigned_outcome, if_neg fits] at written
    contradiction

end Emission

namespace Codec

variable {source : RandomSource} {field : Field} {payload : Payload} {emission : Emission}

/-- `appendAll` succeeds exactly when all integers fit. -/
theorem appendAll_outcome (order : Order) (width : Nat) (values : List Nat) (emission : Emission) :
    ∃ bits, (appendAll order width values emission).outcome =
      if ∀ entry ∈ values.map (Entry.mk width), entry.Fits then .ok (emission.extend bits [])
      else .error (.unplaced .unrepresentable) := by
  induction values generalizing emission with
  | nil => exact ⟨[], by simp [appendAll, Traced.pure]⟩
  | cons value values ih =>
      have first := emission.appendUnsigned_outcome order width value
      rw [appendAll]
      simp only [List.map_cons, List.forall_mem_cons]
      by_cases fits : Entry.Fits ⟨width, value⟩
      · rw [if_pos fits] at first
        obtain ⟨bits, others⟩ :=
          ih (emission.extend ((Bits.ofNat width value).arrange order) [])
        refine ⟨(Bits.ofNat width value).arrange order ++ bits, ?_⟩
        rw [Traced.outcome_bind_of_ok first, others]
        simp only [fits, true_and, Emission.extend_extend, List.append_nil]
      · rw [if_neg fits] at first
        refine ⟨[], ?_⟩
        rw [Traced.outcome_bind_of_error first, if_neg fun each => fits each.1]

/-- `encodeBits` succeeds exactly when the entries of the payload fit. -/
private theorem encodeBits_outcome (run : field.kind = .bit) (suits : field.Suits payload)
    (emission : Emission) :
    ∃ bits, (encodeBits field payload emission).outcome =
      if ∀ entry ∈ field.entries payload, entry.Fits then .ok (emission.extend bits [])
      else .error (.unplaced .unrepresentable) := by
  cases payload with
  | bytes data => exact absurd (run.symm.trans suits) (by decide)
  | integers values =>
      refine ⟨values.map (· != 0), ?_⟩
      rw [Field.entries, if_pos run, if_pos (List.forall_mem_nil _), encodeBits,
        Emission.append_eq_extend]
      rfl
  | integer value =>
      rw [Field.entries, if_pos run]
      simp only [List.forall_mem_singleton]
      unfold encodeBits
      cases order : field.order with
      | little => exact ⟨_, emission.appendUnsigned_outcome .big field.count _⟩
      | native => exact ⟨_, emission.appendUnsigned_outcome .big field.count _⟩
      | big =>
          refine ⟨(Bits.ofNat field.count value).reverse, ?_⟩
          by_cases fits : Entry.Fits ⟨field.count, value⟩
          · have form := Bits.ofUnsigned?_natCast .big fits.1 fits.2
            rw [Bits.arrange_big] at form
            simp only [form, reduceCtorEq, if_false, if_pos fits, Emission.append_eq_extend]
            rfl
          · have missing := Entry.ofUnsigned?_eq_none fits .big
            simp only [missing, reduceCtorEq, if_false, if_neg fits]
            rfl

/-- `encodeIntegers` succeeds exactly when the entries of the payload fit. -/
private theorem encodeIntegers_outcome (wide : field.kind ≠ .bit) (integer : field.kind ≠ .string)
    (suits : field.Suits payload) (emission : Emission) :
    ∃ bits, (encodeIntegers field payload emission).outcome =
      if ∀ entry ∈ field.entries payload, entry.Fits then .ok (emission.extend bits [])
      else .error (.unplaced .unrepresentable) := by
  cases payload with
  | bytes data => exact absurd suits integer
  | integers values =>
      rw [Field.entries, if_neg wide]
      exact appendAll_outcome field.order field.width values emission
  | integer value =>
      rw [Field.entries, if_neg wide]
      simp only [List.forall_mem_singleton]
      exact ⟨_, emission.appendUnsigned_outcome field.order field.width value⟩

/-- `encodePayload` of a payload of the right sort succeeds exactly when its entries fit. -/
theorem encodePayload_outcome (suits : field.Suits payload) (emission : Emission) :
    ∃ bits, (encodePayload field payload emission).outcome =
      if ∀ entry ∈ field.entries payload, entry.Fits then .ok (emission.extend bits [])
      else .error (.unplaced .unrepresentable) := by
  rw [encodePayload]
  by_cases string : field.kind = .string
  · cases payload with
    | integer value | integers values => exact absurd string suits
    | bytes data =>
        refine ⟨field.image (.bytes data), ?_⟩
        rw [Field.entries, if_pos (List.forall_mem_nil _), string]
        exact congrArg Traced.outcome (encodeString_eq field data emission)
  · by_cases run : field.kind = .bit
    · rw [run]
      exact encodeBits_outcome run suits emission
    · rw [Field.ofKind_of_wide run string]
      exact encodeIntegers_outcome run string suits emission

/-- When `fillRepeatedly` succeeds with random numbers, these were drawn and fit. -/
theorem exists_of_fillRepeatedly {width count : Nat} {following : Emission}
    (filled : (fillRepeatedly source .random width count emission).outcome = .ok following) :
    ∃ numbers, source.answers emission.asked (List.replicate count width) = .ok numbers ∧
      ∀ entry ∈ List.zipWith Entry.mk (List.replicate count width) numbers, entry.Fits := by
  induction count generalizing emission with
  | zero => exact ⟨[], rfl, List.forall_mem_nil _⟩
  | succ count ih =>
      rw [fillRepeatedly] at filled
      obtain ⟨middle, first, rest⟩ := Traced.outcome_bind_eq_ok_iff.mp filled
      obtain ⟨number, answered, fits⟩ := Emission.exists_of_appendRandom first
      obtain rfl : emission.extend (Bits.ofNat width number) [width] = middle := by
        rw [fill, Emission.appendRandom_eq answered fits] at first
        exact Except.ok.inj first
      obtain ⟨numbers, others_answered, others_fit⟩ := ih rest
      refine ⟨number :: numbers, ?_, List.forall_mem_cons.mpr ⟨fits, others_fit⟩⟩
      exact RandomSource.answers_cons_eq_ok_iff.mpr
        ⟨number, numbers, answered, by simpa [Emission.extend] using others_answered, rfl⟩

/-- When `encodeFill` succeeds, the source answers the requests of the field with numbers that
fit. -/
theorem exists_of_encodeFill (valid : field.Valid) {mode : Fill} (filled : field.fill = some mode)
    {following : Emission}
    (encoded : (encodeFill source field mode emission).outcome = .ok following) :
    ∃ numbers, source.answers emission.asked field.requests = .ok numbers ∧
      ∀ entry ∈ field.drawn numbers, entry.Fits := by
  by_cases random : mode = .random
  · subst random
    rw [encodeFill] at encoded
    unfold Field.drawn
    rw [Field.requests_of_random filled]
    by_cases run : field.kind = .bit
    · rw [run] at encoded
      obtain ⟨number, answered, fits⟩ := Emission.exists_of_appendRandom encoded
      rw [if_pos run]
      exact ⟨[number],
        RandomSource.answers_cons_eq_ok_iff.mpr ⟨number, [], answered, rfl, rfl⟩,
        List.forall_mem_singleton.mpr fits⟩
    · rw [Field.ofKind_of_wide run (valid.ne_string_of_fill filled)] at encoded
      rw [if_neg run]
      exact exists_of_fillRepeatedly encoded
  · unfold Field.drawn
    rw [Field.requests_of_fill filled random]
    exact ⟨[], rfl, List.forall_mem_nil _⟩

end Codec

end BitRecord
