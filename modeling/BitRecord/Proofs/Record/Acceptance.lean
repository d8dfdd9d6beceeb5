/-
# When writing succeeds

For arguments of the right sort, `Record.write` succeeds exactly when the source
answers all requests and every integer that is written fits in its width.
Arguments of `Format.bind` have only integers that fit, and the answers of a
source in range fit as well. So values that are bound are always packed, and
`Format.bind` fails before any number is drawn.
-/

import BitRecord.Proofs.Codec.Acceptance
import BitRecord.Proofs.Format.Preparation
import BitRecord.Proofs.Record.Writing

namespace BitRecord

namespace Record

variable {source : RandomSource} {directive : Directive} {item : Item} {items : List Item}
  {arguments : List Argument} {emission : Emission} {numbers : List Nat}

/-- `encode` succeeds when the source answers the requests and all entries fit. -/
theorem encode_of_fits (valid : directive.Valid) (suits : directive.Finds Field.Suits arguments)
    (answered : source.answers emission.asked directive.requests = .ok numbers)
    (fits : ∀ entry ∈ directive.entries arguments numbers, entry.Fits) :
    ∃ bits, (directive.encode source arguments emission).outcome =
      .ok (emission.extend bits directive.requests, directive.rest arguments) := by
  cases directive with
  | literal data =>
      have added : emission.align.appendBytes data =
          emission.extend (List.replicate (toBoundary emission.writer.position) false
            ++ Bits.ofBytes data) [] := by
        rw [Emission.align_eq_extend, Emission.appendBytes_eq_extend, Emission.extend_extend]
        rfl
      exact ⟨_, congrArg (fun following => Except.ok (following, arguments)) added⟩
  | field field =>
      unfold Directive.encode Directive.rest
      unfold Directive.entries at fits
      dsimp only at fits ⊢
      cases fill : field.fill with
      | some mode =>
          rw [fill] at fits
          have encoded := Codec.encodeFill_eq valid fill answered fits
          have filled := Field.takesValue_of_fill fill
          refine ⟨field.fillImage mode numbers, ?_⟩
          simp only [encoded, Traced.ok_bind, Directive.takesValue, filled]
          rfl
      | none =>
          rw [fill] at fits
          obtain ⟨argument, others, rfl, suited⟩ := suits fill
          have own : ∀ entry ∈ field.entries argument.payload, entry.Fits := fits
          obtain ⟨bits, encoded⟩ := Codec.encodePayload_outcome suited emission
          rw [if_pos own] at encoded
          have given := Field.takesValue_iff.mpr fill
          refine ⟨bits, ?_⟩
          simp only [Directive.takesValue, given, Directive.requests, Field.requests_of_given fill]
          exact Traced.outcome_bind_of_ok encoded _

/-- When `encode` succeeds, the source has answered the requests and all entries fit. -/
theorem fits_of_encode (valid : directive.Valid) (suits : directive.Finds Field.Suits arguments)
    {result : Emission × List Argument}
    (encoded : (directive.encode source arguments emission).outcome = .ok result) :
    ∃ numbers, source.answers emission.asked directive.requests = .ok numbers ∧
      ∀ entry ∈ directive.entries arguments numbers, entry.Fits := by
  cases directive with
  | literal data => exact ⟨[], rfl, List.forall_mem_nil _⟩
  | field field =>
      unfold Directive.encode at encoded
      unfold Directive.entries
      dsimp only at encoded ⊢
      cases fill : field.fill with
      | some mode =>
          rw [fill] at encoded
          obtain ⟨following, filled, _⟩ := Traced.outcome_bind_eq_ok_iff.mp encoded
          exact Codec.exists_of_encodeFill valid fill filled
      | none =>
          obtain ⟨argument, others, rfl, suited⟩ := suits fill
          rw [fill] at encoded
          obtain ⟨following, added, _⟩ := Traced.outcome_bind_eq_ok_iff.mp encoded
          obtain ⟨bits, outcome⟩ := Codec.encodePayload_outcome suited emission
          refine ⟨[], ?_, ?_⟩
          · rw [Directive.requests, Field.requests_of_given fill]
            rfl
          · by_cases fits : ∀ entry ∈ field.entries argument.payload, entry.Fits
            · exact fits
            · rw [if_neg fits, added] at outcome
              contradiction

private theorem writeItem_outcome_eq_ok_iff {result : Emission × List Argument} :
    (writeItem source item arguments emission).outcome = .ok result ↔
      (item.directive.encode source arguments
        (if item.directive.isFlagged then emission.align else emission)).outcome = .ok result := by
  rw [writeItem, Traced.outcome_bind_of_ok (Traced.outcome_note _), Traced.orPlacedAt]
  generalize (item.directive.encode source arguments _).outcome = outcome
  cases outcome with
  | error failure => simp [Except.mapError]
  | ok value => simp [Except.mapError]

private theorem exists_extend_of_align (directive : Directive) (emission : Emission) :
    ∃ zeros, (if directive.isFlagged then emission.align else emission) =
      emission.extend zeros [] := by
  split
  · exact ⟨_, emission.align_eq_extend⟩
  · exact ⟨[], emission.extend_nil.symm⟩

/-- `write` succeeds when the source answers the requests and all entries fit. -/
theorem write_of_fits (valid : ∀ item ∈ items, item.directive.Valid)
    (suits : List.Forall₂ (fun field argument => field.Suits argument.payload)
      (Directive.givenFields (items.map Item.directive)) arguments)
    (answered : source.answers emission.asked
      ((items.map Item.directive).flatMap Directive.requests) = .ok numbers)
    (fits : ∀ entry ∈ entries (items.map Item.directive) arguments numbers, entry.Fits) :
    ∃ result, (writeThrough source items arguments emission).outcome = .ok result := by
  induction items generalizing arguments emission numbers with
  | nil => exact ⟨_, rfl⟩
  | cons item items ih =>
      rw [List.map_cons] at suits answered fits
      obtain ⟨first_valid, others_valid⟩ := List.forall_mem_cons.mp valid
      obtain ⟨first, others⟩ := Directive.finds_of_forall₂ suits
      rw [List.flatMap_cons] at answered
      obtain ⟨front, back, front_answered, back_answered, rfl⟩ :=
        RandomSource.answers_append_eq_ok_iff.mp answered
      rw [entries_cons (RandomSource.length_of_answers front_answered),
        List.forall_mem_append] at fits
      obtain ⟨first_fits, others_fit⟩ := fits
      obtain ⟨zeros, led⟩ := exists_extend_of_align item.directive emission
      obtain ⟨bits, encoded⟩ := @encode_of_fits source item.directive arguments
        (emission.extend zeros []) front first_valid first
        (by simpa [Emission.extend] using front_answered) first_fits
      rw [← led] at encoded
      obtain ⟨result, later⟩ := @ih (item.directive.rest arguments)
        ((if item.directive.isFlagged then emission.align else emission).extend bits
          item.directive.requests) back others_valid others
        (by rw [led]; simpa [Emission.extend] using back_answered) others_fit
      refine ⟨result, ?_⟩
      rw [writeThrough, Traced.outcome_bind_of_ok (writeItem_outcome_eq_ok_iff.mpr encoded)]
      exact later

/-- When `write` succeeds, the source has answered the requests and all entries fit. -/
theorem fits_of_write (valid : ∀ item ∈ items, item.directive.Valid)
    (suits : List.Forall₂ (fun field argument => field.Suits argument.payload)
      (Directive.givenFields (items.map Item.directive)) arguments)
    {result : Emission × List Argument}
    (written : (writeThrough source items arguments emission).outcome = .ok result) :
    ∃ numbers, source.answers emission.asked
        ((items.map Item.directive).flatMap Directive.requests) = .ok numbers ∧
      ∀ entry ∈ entries (items.map Item.directive) arguments numbers, entry.Fits := by
  induction items generalizing arguments emission with
  | nil => exact ⟨[], rfl, List.forall_mem_nil _⟩
  | cons item items ih =>
      rw [List.map_cons] at suits ⊢
      obtain ⟨first_valid, others_valid⟩ := List.forall_mem_cons.mp valid
      obtain ⟨first, others⟩ := Directive.finds_of_forall₂ suits
      rw [writeThrough] at written
      obtain ⟨⟨following, left⟩, first_written, later⟩ :=
        Traced.outcome_bind_eq_ok_iff.mp written
      have encoded := writeItem_outcome_eq_ok_iff.mp first_written
      obtain ⟨zeros, led⟩ := exists_extend_of_align item.directive emission
      rw [led] at encoded
      obtain ⟨front, front_answered, first_fits⟩ := fits_of_encode first_valid first encoded
      -- The emission after the first item fixes the requests that precede those of the others, so
      -- the induction hypothesis applies only from here on.
      obtain ⟨bits, known⟩ := encode_of_fits first_valid first front_answered first_fits
      obtain ⟨rfl, rfl⟩ := Prod.mk.inj (Except.ok.inj (encoded.symm.trans known))
      obtain ⟨back, back_answered, others_fit⟩ := ih others_valid others later
      have asked : (emission.extend zeros []).asked = emission.asked := by simp [Emission.extend]
      rw [asked] at front_answered
      refine ⟨front ++ back, ?_, ?_⟩
      · rw [List.flatMap_cons]
        refine RandomSource.answers_append_eq_ok_iff.mpr
          ⟨front, back, front_answered, ?_, rfl⟩
        simpa [Emission.extend] using back_answered
      · rw [entries_cons (RandomSource.length_of_answers front_answered), List.forall_mem_append]
        exact ⟨first_fits, others_fit⟩

/-- `Record.write` of arguments of the right sort succeeds exactly when the source answers all
requests and all entries fit. -/
theorem write_succeeds_iff (valid : ∀ item ∈ items, item.directive.Valid)
    (suits : List.Forall₂ (fun field argument => field.Suits argument.payload)
      (Directive.givenFields (items.map Item.directive)) arguments) :
    (∃ result, (writeThrough source items arguments emission).outcome = .ok result) ↔
      ∃ numbers, source.answers emission.asked
          ((items.map Item.directive).flatMap Directive.requests) = .ok numbers ∧
        ∀ entry ∈ entries (items.map Item.directive) arguments numbers, entry.Fits := by
  apply Iff.intro
  · intro success
    obtain ⟨result, written⟩ := success
    exact fits_of_write valid suits written
  · intro served
    obtain ⟨numbers, answered, fits⟩ := served
    exact write_of_fits valid suits answered fits

end Record

namespace Format

variable {given values : Value} {source : RandomSource} {format : Format}
  {arguments : List Argument} {numbers : List Nat}

/-- When `Format.pack` succeeds, with any source, the record is that of `layOut` for the bound
arguments and the numbers answered, and all entries fit. -/
theorem exists_of_pack (valid : ∀ directive ∈ format.directives, directive.Valid) {record : Bytes}
    (packed : (format.pack values source).outcome = .ok record) :
    ∃ arguments numbers, (format.bind values).outcome = .ok arguments ∧
      source.answers #[] format.requests = .ok numbers ∧
      (∀ entry ∈ Record.entries format.directives arguments numbers, entry.Fits) ∧
      record = (format.layOut (Record.images format.givenFields arguments) numbers).toBytes := by
  obtain ⟨arguments, bound, written⟩ := Traced.outcome_bind_eq_ok_iff.mp packed
  obtain ⟨emission, walked, _⟩ := Traced.outcome_bind_eq_ok_iff.mp written
  obtain ⟨_, _, _, items, _, each⟩ := bind_outcome_eq_ok_iff.mp bound
  have suits := each.carried.imp fun _ _ carried => carried.suits
  have through : ∃ result,
      (Record.writeThrough source format.items arguments .empty).outcome = .ok result := by
    rw [Record.write_eq_map] at walked
    obtain ⟨result, success, _⟩ := Traced.outcome_bind_eq_ok_iff.mp walked
    exact ⟨result, success⟩
  obtain ⟨numbers, answered, fits⟩ :=
    (Record.write_succeeds_iff (valid_items valid) suits).mp through
  rw [pack_eq valid bound answered fits] at packed
  exact ⟨arguments, numbers, bound, answered, fits, (Except.ok.inj packed).symm⟩

/-- `Format.pack` of values that are bound succeeds exactly when the source answers all requests
with numbers that fit, with the record of `layOut`. -/
theorem pack_outcome_eq_ok_iff (valid : ∀ directive ∈ format.directives, directive.Valid)
    (bound : (format.bind values).outcome = .ok arguments) {record : Bytes} :
    (format.pack values source).outcome = .ok record ↔
      ∃ numbers, source.answers #[] format.requests = .ok numbers ∧
        (∀ entry ∈ List.zipWith Entry.mk format.requests numbers, entry.Fits) ∧
        record = (format.layOut (Record.images format.givenFields arguments) numbers).toBytes := by
  obtain ⟨_, _, _, _, _, each⟩ := bind_outcome_eq_ok_iff.mp bound
  apply Iff.intro
  · intro packed
    obtain ⟨others, numbers, also_bound, answered, fits, laid_out⟩ := exists_of_pack valid packed
    obtain rfl := Except.ok.inj (bound.symm.trans also_bound)
    have enough := RandomSource.length_of_answers answered
    exact ⟨numbers, answered, (Record.entries_fit_iff valid each.carried enough).mp fits, laid_out⟩
  · intro parts
    obtain ⟨numbers, answered, drawn_fit, rfl⟩ := parts
    have enough := RandomSource.length_of_answers answered
    exact congrArg Traced.outcome (pack_eq valid bound answered
      ((Record.entries_fit_iff valid each.carried enough).mpr drawn_fit))

/-- A record of `Format.pack` has the size of its format, for any source. -/
theorem length_of_pack (valid : ∀ directive ∈ format.directives, directive.Valid) {record : Bytes}
    (packed : (format.pack values source).outcome = .ok record) : record.length = format.size := by
  obtain ⟨arguments, numbers, bound, answered, _, rfl⟩ := exists_of_pack valid packed
  obtain ⟨_, _, _, items, _, each⟩ := bind_outcome_eq_ok_iff.mp bound
  rw [Bits.length_toBytes, length_layOut valid each answered, size]

/-- `Format.pack` with a source in range succeeds exactly when `Format.bind` does. Then the walk
consumes exactly one argument for each field that takes one, and every integer that it writes fits
in its width. When `Format.bind` fails, `pack` fails with the same failure, before any number is
drawn. -/
theorem pack_follows_bind (compiled : (compile given).outcome = .ok format)
    (in_range : source.InRange) :
    (∀ arguments, (format.bind values).outcome = .ok arguments →
      List.Forall₂ (fun field argument => field.Carries argument.payload) format.givenFields
        arguments ∧
      ∃ numbers final,
        source.answers #[] format.requests = .ok numbers ∧
        (∀ entry ∈ Record.entries format.directives arguments numbers, entry.Fits) ∧
        (Record.writeThrough source format.items arguments .empty).outcome = .ok (final, []) ∧
        (BitRecord.pack given values source).outcome = .ok final.writer.bytes) ∧
    ∀ failure, (format.bind values).outcome = .error failure →
      (BitRecord.pack given values source).outcome = .error failure ∧
      (BitRecord.pack given values source).draws = [] := by
  have valid := valid_of_compile compiled
  apply And.intro
  · intro arguments bound
    obtain ⟨_, _, _, items, _, each⟩ := bind_outcome_eq_ok_iff.mp bound
    obtain ⟨numbers, answered, fits⟩ := exists_answers_fit in_range valid bound
    obtain ⟨final, record, written, _, packed, rfl, _⟩ :=
      pack_through compiled bound answered fits
    exact ⟨each.carried, numbers, final, answered, fits, written, packed⟩
  · intro failure refused
    have stopped : (format.pack values source).outcome = .error failure :=
      Traced.outcome_bind_of_error refused _
    have events_eq : (format.pack values source).events = (format.bind values).events :=
      Traced.events_bind_of_error refused _
    refine ⟨(Traced.outcome_bind_of_ok compiled _).trans stopped, ?_⟩
    rw [BitRecord.pack, Traced.draws, Traced.events_bind_of_ok compiled, events_eq,
      List.filterMap_append]
    exact List.append_eq_nil_iff.mpr
      ⟨(compile_prepares given).draws_eq_nil, (bind_prepares format values).draws_eq_nil⟩

/-- A left-justified value, and one with bits below the field. -/
theorem pack_follows_bind_mixed :
    (∃ numbers final, RandomSource.answers (.cyclic #[1]) #[] mixed.requests = .ok numbers ∧
      Record.entries mixed.directives
          [⟨.bit, .integer 160⟩, ⟨.byte, .integers [1, 255]⟩, ⟨.string, .bytes [7]⟩] numbers =
        [⟨3, 5⟩, ⟨1, 1⟩, ⟨8, 1⟩, ⟨8, 255⟩] ∧
      (BitRecord.pack mixed.given mixedValues (.cyclic #[1])).outcome =
        .ok (Writer.bytes (Emission.writer final))) ∧
    (BitRecord.pack mixed.given (.list [.integer 161, .list [.integer 1, .integer (-1)],
      .buffer .bytes [7]]) (.cyclic #[1])).outcome = .error (.placed (.strayBits 161 3) 0) := by
  have in_range := RandomSource.inRange_cyclic (show 0 < (#[1] : Array Int).size by decide)
  apply And.intro
  · obtain ⟨_, numbers, final, answered, _, _, packed⟩ :=
      (pack_follows_bind compile_mixed in_range).1 _ bind_mixedValues
    obtain rfl : [1] = numbers := Except.ok.inj answered
    exact ⟨[1], final, answered, by decide, packed⟩
  · exact ((pack_follows_bind compile_mixed in_range).2 _ rfl).1

end Format

end BitRecord
