/-
# Packing and unpacking

A record is the bodies of its directives in their places, so `pack` succeeds
whenever `bind` accepts the values and the source answers. `unpack` takes the
same places out of the record again. Its result is therefore the payloads of the
values, each in the form its field stores, whatever bytes follow the record.
-/

import BitRecord.Proofs.Format.Items
import BitRecord.Proofs.Record.Reading
import BitRecord.Proofs.Record.Writing

namespace BitRecord

namespace Record

/-- `bodies` agree with the literals of their directives. -/
theorem agrees_bodies (directives : List Directive) (images : List Bits) (numbers : List Nat) :
    List.Forall₂ Directive.Agrees directives (bodies directives images numbers) := by
  fun_induction bodies directives images numbers with
  | case1 => exact .nil
  | case2 data directives images numbers ih => exact .cons (Bits.toBytes_ofBytes data) ih
  | case3 field directives images numbers mode fill ih => exact .cons trivial ih
  | case4 field directives images numbers fill ih => exact .cons trivial ih

/-- The `contents` of `bodies` are the payloads, each `fitted` to its field. -/
theorem contents_bodies {directives : List Directive} {arguments : List Argument}
    (carried : List.Forall₂ (fun field argument => field.Carries argument.payload)
      (Directive.givenFields directives) arguments) (numbers : List Nat) :
    contents directives
        (bodies directives (images (Directive.givenFields directives) arguments) numbers) =
      List.zipWith (fun field argument => argument.payload.fitted field.count)
        (Directive.givenFields directives) arguments := by
  induction directives generalizing arguments numbers with
  | nil => rfl
  | cons directive directives ih =>
      cases directive with
      | literal data => exact ih carried numbers
      | field field =>
          cases fill : field.fill with
          | some mode =>
              have given := Field.takesValue_of_fill fill
              have silent (body : Bits) : (Directive.field field).content? body = none :=
                if_neg (by simp [given])
              rw [Directive.givenFields_filled given] at carried ⊢
              rw [bodies_filled fill, contents, silent]
              exact ih carried _
          | none =>
              have given := Field.takesValue_iff.mpr fill
              have read (body : Bits) : (Directive.field field).content? body =
                  some (field.content body) := if_pos given
              rw [Directive.givenFields_given given] at carried ⊢
              cases carried with
              | cons first others =>
                  rw [images_cons, List.zipWith_cons_cons, bodies_given fill, contents,
                    read, Field.content_image first]
                  exact congrArg (List.cons _) (ih others numbers)

end Record

namespace Format

variable {given values : Value} {source : RandomSource} {format : Format} {items : List Value}
  {arguments : List Argument} {numbers : List Nat}

/-- The slices of `layOut` are the bodies, with any bytes behind the record. -/
theorem slices_layOut (valid : ∀ directive ∈ format.directives, directive.Valid)
    (bound : Bound format.givenFields items arguments)
    (answered : source.answers #[] format.requests = .ok numbers) (trailing : Bytes) :
    format.slices
        ((format.layOut (Record.images format.givenFields arguments) numbers).toBytes ++ trailing) =
      Record.bodies format.directives (Record.images format.givenFields arguments) numbers := by
  have fits := Record.fits_bodies (Record.length_images valid bound.carried)
    (Nat.le_of_eq (RandomSource.length_of_answers answered).symm)
  rw [slices, Bits.ofBytes_append, Bits.ofBytes_toBytes, Bits.completed, List.append_assoc]
  exact Layout.slices_place fits [] _

/-- `unpack` on the bytes of `layOut`, with any tail, gives the payloads that were written, each
`fitted` to its field. -/
theorem unpack_layOut (valid : ∀ directive ∈ format.directives, directive.Valid)
    (bound : Bound format.givenFields items arguments)
    (answered : source.answers #[] format.requests = .ok numbers) {buffer length : Value}
    (trailing : Bytes)
    (readable : Reader.ofValue buffer length = .ok (Reader.ofBytes
      ((format.layOut (Record.images format.givenFields arguments) numbers).toBytes ++ trailing))) :
    (format.unpack buffer length).outcome =
      .ok (List.zipWith (fun field argument => argument.payload.fitted field.count)
        format.givenFields arguments) := by
  refine (unpack_outcome_eq_ok_iff valid).mpr ⟨_, readable, ?_, ?_, ?_⟩
  · rw [List.length_append, Bits.length_toBytes, length_layOut valid bound answered, size]
    exact Nat.le_add_right _ _
  · rw [slices_layOut valid bound answered]
    exact Record.agrees_bodies _ _ _
  · rw [slices_layOut valid bound answered]
    exact (Record.contents_bodies bound.carried numbers).symm

/-- `pack` succeeds on values that `bind` accepts, and `unpack` gives the normal form of each value,
with any tail behind the record and with or without its length. -/
theorem unpack_pack (compiled : (compile given).outcome = .ok format)
    (bound : (format.bind values).outcome = .ok arguments) (in_range : source.InRange) :
    ∃ items record payloads,
      values.items? = some items ∧ items.length = format.arity ∧
      payloads.length = format.arity ∧
      List.zipWith Field.normalForm? format.givenFields items = payloads.map some ∧
      (BitRecord.pack given values source).outcome = .ok record ∧
      ∀ trailing : Bytes,
        (BitRecord.unpack given (.buffer .bytes (record ++ trailing)) .null).outcome =
          .ok payloads ∧
        (BitRecord.unpack given (.buffer .bytes (record ++ trailing))
          (.integer record.length)).outcome = .ok payloads := by
  have valid := valid_of_compile compiled
  obtain ⟨_, _, _, items, listed, each⟩ := bind_outcome_eq_ok_iff.mp bound
  obtain ⟨numbers, answered⟩ := in_range.exists_answers #[] format.requests
  have packed := pack_outcome in_range valid bound answered
  have arity : items.length = format.arity := each.length_eq.trans format.arity_eq.symm
  let payloads := List.zipWith (fun field argument => argument.payload.fitted field.count)
    format.givenFields arguments
  refine ⟨items, _, payloads, listed, arity, ?_, ?_,
    (Traced.outcome_bind_of_ok compiled _).trans packed, fun trailing => ⟨?_, ?_⟩⟩
  · rw [List.length_zipWith, ← each.carried.length_eq, Nat.min_self, format.arity_eq]
  · rw [each.normalForms, List.map_zipWith]
  · exact (Traced.outcome_bind_of_ok compiled _).trans
      (unpack_layOut valid each answered trailing (Reader.ofValue_null _))
  · refine (Traced.outcome_bind_of_ok compiled _).trans
      (unpack_layOut valid each answered [] ((Reader.ofValue_length _ trailing).trans ?_))
    rw [List.append_nil]

/-- For `mixed`: `unpack` gives an unsigned number for the negative one and the padded string. -/
theorem unpack_pack_mixed :
    ∃ record, (BitRecord.pack mixed.given mixedValues (.cyclic #[1])).outcome = .ok record ∧
      ∀ trailing : Bytes,
        (BitRecord.unpack mixed.given (.buffer .bytes (record ++ trailing)) .null).outcome =
          .ok [.integer 160, .integers [1, 255], .bytes [7, 0]] := by
  obtain ⟨items, record, payloads, listed, _, _, normal, packed, unpacked⟩ :=
    unpack_pack compile_mixed bind_mixedValues
      (RandomSource.inRange_cyclic (show 0 < (#[1] : Array Int).size by decide))
  obtain rfl := Option.some.inj listed
  have forms : [Payload.integer 160, .integers [1, 255], .bytes [7, 0]].map some =
      payloads.map some := normal
  have same := (List.map_inj_right fun _ _ => Option.some.inj).mp forms
  exact ⟨record, packed, fun trailing => same ▸ (unpacked trailing).1⟩

end Format

end BitRecord
