/-
# Random sources that fail

A source that answers some requests and refuses the next one makes `pack` fail in
the middle of a record. The failure is placed at the fill whose request is
refused, whether that is the first request of the fill or a later one, so its
place follows from the requests of the fills in front. `packInto` leaves the
buffer as it was.
-/

import BitRecord.Proofs.Buffer.InPlace
import BitRecord.Proofs.Record.RandomFill

namespace BitRecord

namespace RandomSource

/-- A source that answers its first `limit` requests in range, and refuses the next one with a
located cause. -/
structure FailsAfter (source : RandomSource) (limit : Nat) : Prop where
  answers : ∀ (asked : Array Nat) (width : Nat), asked.size < limit →
    ∃ number, source.answer asked width = .ok number ∧ number < 2 ^ width
  refuses : ∀ (asked : Array Nat) (width : Nat), asked.size = limit →
    ∃ cause, source.answer asked width = .error cause ∧ cause.family.isLocated = true

/-- `RandomSource.finite` fails after its last number. -/
theorem failsAfter_finite (numbers : Array Int) : (finite numbers).FailsAfter numbers.size where
  answers asked width within :=
    ⟨lowBits numbers[asked.size] width, by simp [finite, within], lowBits_lt _ _⟩
  refuses asked width reached := ⟨.sourceExhausted, by simp [finite, reached], rfl⟩

/-- The requests of `widths` are made one after the other: the source answers those of `drawn`, the
first of them, with a number in range each, and refuses the next one with `cause`. -/
inductive FailsOn (source : RandomSource) (cause : Cause) :
    (asked : Array Nat) → (widths drawn : List Nat) → Prop
  | now {asked : Array Nat} {width : Nat} {widths : List Nat}
      (refused : source.answer asked width = .error cause) :
      FailsOn source cause asked (width :: widths) []
  | later {asked : Array Nat} {width number : Nat} {widths drawn : List Nat}
      (answered : source.answer asked width = .ok number) (fits : Entry.Fits ⟨width, number⟩)
      (fails : FailsOn source cause (asked.push width) widths drawn) :
      FailsOn source cause asked (width :: widths) (width :: drawn)

variable {source : RandomSource} {cause : Cause} {asked : Array Nat} {limit : Nat}
  {widths drawn : List Nat}

/-- A source that fails after `limit` requests answers any `limit` requests or fewer. -/
theorem FailsAfter.exists_answers (fails : source.FailsAfter limit)
    (positive : ∀ width ∈ widths, 0 < width) (within : asked.size + widths.length ≤ limit) :
    ∃ numbers, source.answers asked widths = .ok numbers ∧
      ∀ entry ∈ List.zipWith Entry.mk widths numbers, entry.Fits := by
  induction widths generalizing asked with
  | nil => exact ⟨[], rfl, List.forall_mem_nil _⟩
  | cons width widths ih =>
      obtain ⟨width_pos, others_pos⟩ := List.forall_mem_cons.mp positive
      rw [List.length_cons] at within
      obtain ⟨number, answered, small⟩ := fails.answers asked width (by omega)
      have others_within : (asked.push width).size + widths.length ≤ limit := by
        rw [Array.size_push]
        omega
      obtain ⟨numbers, others_answered, others_fit⟩ := ih others_pos others_within
      exact ⟨number :: numbers,
        answers_cons_eq_ok_iff.mpr ⟨number, numbers, answered, others_answered, rfl⟩,
        List.forall_mem_cons.mpr ⟨⟨width_pos, small⟩, others_fit⟩⟩

/-- A source that fails after `limit` requests fails on any list that goes beyond them, with `limit`
requests answered. -/
theorem FailsAfter.failsOn (fails : source.FailsAfter limit)
    (positive : ∀ width ∈ widths, 0 < width) (reached : asked.size ≤ limit)
    (beyond : limit < asked.size + widths.length) :
    ∃ cause, cause.family.isLocated = true ∧
      source.FailsOn cause asked widths (widths.take (limit - asked.size)) := by
  induction widths generalizing asked with
  | nil =>
      rw [List.length_nil] at beyond
      omega
  | cons width widths ih =>
      obtain ⟨width_pos, others_pos⟩ := List.forall_mem_cons.mp positive
      rw [List.length_cons] at beyond
      rcases Nat.eq_or_lt_of_le reached with same | within
      · obtain ⟨cause, refused, located⟩ := fails.refuses asked width same
        rw [← same, Nat.sub_self, List.take_zero]
        exact ⟨cause, located, .now refused⟩
      · obtain ⟨number, answered, small⟩ := fails.answers asked width within
        have grown : (asked.push width).size = asked.size + 1 := Array.size_push width
        obtain ⟨cause, located, later⟩ := @ih (asked.push width) others_pos (by omega) (by omega)
        have left : limit - asked.size = limit - (asked.push width).size + 1 := by omega
        rw [left, List.take_succ_cons]
        exact ⟨cause, located, .later answered ⟨width_pos, small⟩ later⟩

/-- The refused request is the one behind those that are answered. -/
theorem FailsOn.refused (fails : source.FailsOn cause asked widths drawn) :
    ∃ width, widths[drawn.length]? = some width ∧
      source.answer (asked ++ drawn) width = .error cause := by
  induction fails with
  | now refused => exact ⟨_, rfl, by simpa using refused⟩
  | later _ _ _ ih =>
      obtain ⟨width, found, refused⟩ := ih
      exact ⟨width, found, by simpa using refused⟩

/-- A source that fails on `first ++ second` fails on `first`, or answers it and fails on
`second`. -/
theorem FailsOn.append {first second : List Nat}
    (fails : source.FailsOn cause asked (first ++ second) drawn) :
    source.FailsOn cause asked first drawn ∨
      ∃ numbers others, source.answers asked first = .ok numbers ∧
        (∀ entry ∈ List.zipWith Entry.mk first numbers, entry.Fits) ∧
        drawn = first ++ others ∧ source.FailsOn cause (asked ++ first) second others := by
  induction first generalizing asked drawn with
  | nil => exact .inr ⟨[], drawn, rfl, List.forall_mem_nil _, rfl, by simpa using fails⟩
  | cons width first ih =>
      have moved : asked.push width ++ first = asked ++ (width :: first) := by simp
      cases fails with
      | now refused => exact .inl (.now refused)
      | @later _ _ number _ drawn answered fits fails =>
          rcases ih fails with within | behind
          · exact .inl (.later answered fits within)
          · obtain ⟨numbers, others, first_answered, first_fits, rfl, later⟩ := behind
            rw [moved] at later
            exact .inr ⟨number :: numbers, others,
              answers_cons_eq_ok_iff.mpr ⟨number, numbers, answered, first_answered, rfl⟩,
              List.forall_mem_cons.mpr ⟨fits, first_fits⟩, rfl, later⟩

/-- Fewer requests are answered than there are. -/
theorem FailsOn.length_lt (fails : source.FailsOn cause asked widths drawn) :
    drawn.length < widths.length := by
  obtain ⟨width, found, _⟩ := fails.refused
  exact (List.getElem?_eq_some_iff.mp found).1

end RandomSource

namespace Codec

variable {source : RandomSource} {cause : Cause} {emission : Emission} {drawn : List Nat}

/-- `appendRandom` raises the cause of a refused request, without a `drew` event. -/
private theorem appendRandom_of_error {width : Nat}
    (refused : source.answer emission.asked width = .error cause) :
    emission.appendRandom source width = ⟨[], .error (.unplaced cause)⟩ := by
  rw [Emission.appendRandom, refused]
  rfl

/-- `fillRepeatedly` fails at the refused request, with a `drew` event for each request in front of
it. -/
theorem fillRepeatedly_of_failsOn {width count : Nat}
    (fails : source.FailsOn cause emission.asked (List.replicate count width) drawn) :
    fillRepeatedly source .random width count emission =
      ⟨drawn.map .drew, .error (.unplaced cause)⟩ := by
  induction count generalizing emission drawn with
  | zero => cases fails
  | succ count ih =>
      rw [List.replicate_succ] at fails
      cases fails with
      | now refused =>
          rw [fillRepeatedly, fill, appendRandom_of_error refused, Traced.error_bind]
          rfl
      | @later _ _ number _ drawn answered fits later =>
          have rest := @ih (emission.extend (Bits.ofNat width number) [width]) drawn
            (by simpa [Emission.extend] using later)
          rw [fillRepeatedly, fill, Emission.appendRandom_eq answered fits, Traced.ok_bind, rest]
          rfl

/-- `encodeFill` of a random fill fails at the first refused request, for one request of the whole
field and for one of each element. -/
theorem encodeFill_of_failsOn {field : Field} (valid : field.Valid)
    (random : field.fill = some .random)
    (fails : source.FailsOn cause emission.asked field.requests drawn) :
    encodeFill source field .random emission = ⟨drawn.map .drew, .error (.unplaced cause)⟩ := by
  have requests := Field.requests_of_random random
  rw [encodeFill]
  by_cases run : field.kind = .bit
  · rw [if_pos run] at requests
    rw [requests] at fails
    rw [run]
    cases fails with
    | now refused => exact appendRandom_of_error refused
    | later _ _ fails => cases fails
  · rw [if_neg run] at requests
    rw [requests] at fails
    rw [Field.ofKind_of_wide run (valid.ne_string_of_fill random)]
    exact fillRepeatedly_of_failsOn fails

end Codec

/-- A directive with requests is a field with the random fill. -/
theorem Directive.exists_random_of_requests {directive : Directive}
    (asks : 0 < directive.requests.length) :
    ∃ field, directive = .field field ∧ field.fill = some .random := by
  cases directive with
  | literal data => exact absurd asks (Nat.lt_irrefl 0)
  | field field =>
      refine ⟨field, rfl, ?_⟩
      by_contra other
      rw [requests, Field.requests, if_neg other] at asks
      exact absurd asks (Nat.lt_irrefl 0)

namespace Record

/-- The item for which the number with `index`, counted from zero, is drawn: the random fill whose
requests, after those of the items in front, include that index. -/
structure DrawnFor (items : List Item) (index : Nat) (before : List Item) (item : Item)
    (behind : List Item) : Prop where
  split : items = before ++ item :: behind
  random : ∃ field, item.directive = .field field ∧ field.fill = some .random
  reached : ((before.map Item.directive).flatMap Directive.requests).length ≤ index
  within : index < ((before.map Item.directive).flatMap Directive.requests).length
    + item.directive.requests.length

variable {source : RandomSource} {cause : Cause} {item other : Item}
  {items before behind others rest : List Item} {arguments : List Argument} {emission : Emission}
  {drawn : List Nat} {index : Nat}

/-- The items up to the one for which a number is drawn have more requests than its index. -/
private theorem DrawnFor.ne_append (here : DrawnFor items index before item behind)
    (there : DrawnFor items index others other rest) (between : List Item) :
    others ≠ before ++ item :: between := by
  rintro rfl
  have reached := there.reached
  have within := here.within
  rw [List.map_append, List.flatMap_append, List.map_cons, List.flatMap_cons, List.length_append,
    List.length_append] at reached
  omega

/-- The item for which a number is drawn is unique. -/
theorem DrawnFor.unique (here : DrawnFor items index before item behind)
    (there : DrawnFor items index others other rest) : item = other := by
  have same : before ++ item :: behind = others ++ other :: rest :=
    here.split.symm.trans there.split
  rcases List.append_eq_append_iff.mp same with ⟨between, beyond, left⟩ | ⟨between, beyond, left⟩
  · cases between with
    | nil => exact (List.cons.inj left).1
    | cons first between =>
        obtain ⟨rfl, _⟩ := List.cons.inj left
        exact absurd beyond (here.ne_append there between)
  · cases between with
    | nil => exact (List.cons.inj left).1.symm
    | cons first between =>
        obtain ⟨rfl, _⟩ := List.cons.inj left
        exact absurd beyond (there.ne_append here between)

/-- `writeItem` fails with the cause of the source, placed at the item, when one of its requests is
refused. -/
theorem writeItem_of_failsOn (valid : item.directive.Valid)
    (fails : source.FailsOn cause emission.asked item.directive.requests drawn)
    (located : cause.family.isLocated = true) :
    (writeItem source item arguments emission).outcome = .error (.placed cause item.position) ∧
      (writeItem source item arguments emission).draws = drawn := by
  obtain ⟨position, directive⟩ := item
  obtain ⟨field, rfl, random⟩ :=
    Directive.exists_random_of_requests (Nat.zero_lt_of_lt fails.length_lt)
  have kept (emission : Emission) :
      (if (Directive.field field).isFlagged then emission.align else emission).asked =
        emission.asked := by
    split <;> rfl
  have failed := @Codec.encodeFill_of_failsOn source cause
    (if (Directive.field field).isFlagged then emission.align else emission) drawn field valid
    random (by rwa [kept])
  have numbers_drawn : (drawn.map Event.drew).filterMap Event.drawn? = drawn := by
    rw [List.filterMap_map]
    exact List.filterMap_some
  have placed : (Failure.unplaced cause).orPlacedAt position = .placed cause position :=
    if_pos ⟨located, rfl⟩
  unfold writeItem Directive.encode
  simp only [random, failed, Traced.error_bind]
  exact ⟨congrArg Except.error placed, numbers_drawn⟩

/-- `writeThrough` fails at the item of the refused request, with the numbers in front of it
drawn. -/
theorem writeThrough_of_failsOn (valid : ∀ item ∈ items, item.directive.Valid)
    (carried : List.Forall₂ (fun field argument => field.Carries argument.payload)
      (Directive.givenFields (items.map Item.directive)) arguments)
    (fails : source.FailsOn cause emission.asked
      ((items.map Item.directive).flatMap Directive.requests) drawn)
    (located : cause.family.isLocated = true) :
    ∃ before item behind, DrawnFor items drawn.length before item behind ∧
      (writeThrough source items arguments emission).outcome =
        .error (.placed cause item.position) ∧
      (writeThrough source items arguments emission).draws = drawn := by
  induction items generalizing arguments emission drawn with
  | nil => cases fails
  | cons item items ih =>
      obtain ⟨first_valid, others_valid⟩ := List.forall_mem_cons.mp valid
      rw [List.map_cons] at carried fails
      rw [List.flatMap_cons] at fails
      obtain ⟨first, others⟩ := Directive.finds_of_forall₂ carried
      rcases fails.append with here | later
      · -- The refused request is one of the first item.
        obtain ⟨outcome, draws⟩ := @writeItem_of_failsOn source cause item arguments emission drawn
          first_valid here located
        refine ⟨[], item, items, ⟨rfl, ?_, Nat.zero_le _, ?_⟩, ?_, ?_⟩
        · exact Directive.exists_random_of_requests (Nat.zero_lt_of_lt here.length_lt)
        · exact Nat.lt_of_lt_of_eq here.length_lt (Nat.zero_add _).symm
        · exact Traced.outcome_bind_of_error outcome _
        · rw [writeThrough, Traced.draws, Traced.events_bind_of_error outcome]
          exact draws
      · obtain ⟨numbers, others_drawn, answered, own_fit, rfl, failing⟩ := later
        have written := writeItem_eq first_valid first answered
          ((Directive.entries_fit_iff first_valid first).mpr own_fit)
        obtain ⟨before, culprit, behind, place, outcome, draws⟩ :=
          @ih (item.directive.rest arguments)
            ((lead item.directive emission).extend (item.directive.body arguments numbers)
              item.directive.requests) others_drawn others_valid others
            (by simpa [lead, Emission.extend] using failing)
        have reached := place.reached
        have within := place.within
        refine ⟨item :: before, culprit, behind, ⟨?_, place.random, ?_, ?_⟩, ?_, ?_⟩
        · rw [place.split, List.cons_append]
        · rw [List.map_cons, List.flatMap_cons, List.length_append, List.length_append]
          omega
        · rw [List.map_cons, List.flatMap_cons, List.length_append, List.length_append]
          omega
        · rw [writeThrough, written, Traced.ok_bind]
          exact outcome
        · have own : (packingEvent (item, emission.writer.position)).drawn? = none := rfl
          rw [writeThrough, written, Traced.ok_bind, Traced.draws, List.filterMap_append,
            List.filterMap_cons_none own, Directive.draws_encodingEvents]
          exact congrArg (item.directive.requests ++ ·) draws

end Record

namespace Format

variable {given values : Value} {source : RandomSource} {format : Format}
  {arguments : List Argument}

/-- `pack` on values that `bind` accepts fails at the item of the refused request. -/
theorem pack_of_failsOn {cause : Cause} {drawn : List Nat}
    (valid : ∀ directive ∈ format.directives, directive.Valid)
    (bound : (format.bind values).outcome = .ok arguments)
    (fails : source.FailsOn cause #[] format.requests drawn)
    (located : cause.family.isLocated = true) :
    ∃ before item behind, Record.DrawnFor format.items drawn.length before item behind ∧
      (format.pack values source).outcome = .error (.placed cause item.position) ∧
      (format.pack values source).draws = drawn := by
  obtain ⟨_, _, _, items, _, each⟩ := bind_outcome_eq_ok_iff.mp bound
  obtain ⟨before, item, behind, place, outcome, draws⟩ :=
    @Record.writeThrough_of_failsOn source cause format.items arguments .empty drawn
      (valid_items valid) each.carried fails located
  have written : (Record.write source format.items arguments .empty).outcome =
      .error (.placed cause item.position) := by
    rw [Record.write_eq_map, Traced.map_eq, outcome]
    rfl
  have binding : (format.bind values).draws = [] := (bind_prepares format values).draws_eq_nil
  refine ⟨before, item, behind, place, ?_, ?_⟩
  · rw [pack, Traced.outcome_bind_of_ok bound]
    exact Traced.outcome_bind_of_error written _
  · rw [Traced.draws] at binding draws ⊢
    rw [pack, Traced.events_bind_of_ok bound, Traced.events_bind_of_error written,
      Record.write_eq_map, Traced.map_eq, List.filterMap_append, binding, draws]
    rfl

/-- With a source that fails after `limit` requests `pack` succeeds exactly when the format has no
more requests than these. Otherwise it fails with the cause of the source, placed at the fill of the
refused request, and the numbers in front of it have been drawn. `packInto` fails in the same way
where the record would fit, and leaves the bytes of the buffer as they were. -/
theorem pack_stops_at_refusal {limit : Nat} (compiled : (compile given).outcome = .ok format)
    (bound : (format.bind values).outcome = .ok arguments) (fails : source.FailsAfter limit) :
    ((∃ record, (BitRecord.pack given values source).outcome = .ok record) ↔
      format.requests.length ≤ limit) ∧
    (limit < format.requests.length →
      ∃ before item behind width cause,
        Record.DrawnFor format.items limit before item behind ∧
        format.requests[limit]? = some width ∧
        source.answer (format.requests.take limit).toArray width = .error cause ∧
        (BitRecord.pack given values source).outcome = .error (.placed cause item.position) ∧
        (BitRecord.pack given values source).draws = format.requests.take limit ∧
        ∀ (holder : Holder) (data : Bytes) (offset : Value) (start : Int),
          holder.isWritable = true → offset.count? = some start →
          0 ≤ start → start + format.size ≤ data.length →
          (BitRecord.packInto given (.buffer holder data) values offset source).outcome =
            .error (.placed cause item.position) ∧
          (BitRecord.packInPlace given values offset source (.buffer holder data)).1.outcome =
            .error (.placed cause item.position) ∧
          (BitRecord.packInPlace given values offset source (.buffer holder data)).2 =
            .buffer holder data) := by
  have valid := valid_of_compile compiled
  have positive := Record.requests_pos valid
  have stops : limit < format.requests.length →
      ∃ cause, cause.family.isLocated = true ∧
        source.FailsOn cause #[] format.requests (format.requests.take limit) := fun beyond =>
    @RandomSource.FailsAfter.failsOn source #[] limit format.requests fails positive
      (Nat.zero_le _) (Nat.lt_of_lt_of_eq beyond (Nat.zero_add _).symm)
  refine ⟨⟨fun success => ?_, fun within => ?_⟩, fun beyond => ?_⟩
  · by_contra beyond
    obtain ⟨cause, located, failing⟩ := stops (Nat.lt_of_not_le beyond)
    obtain ⟨_, item, _, _, failed, _⟩ := pack_of_failsOn valid bound failing located
    obtain ⟨record, packed⟩ := success
    rw [pack_of_compile compiled, failed] at packed
    contradiction
  · obtain ⟨numbers, answered, drawn_fit⟩ := @RandomSource.FailsAfter.exists_answers source #[]
      limit format.requests fails positive (Nat.le_trans (Nat.le_of_eq (Nat.zero_add _)) within)
    rw [pack_of_compile compiled]
    exact ⟨_, (pack_outcome_eq_ok_iff valid bound).mpr ⟨numbers, answered, drawn_fit, rfl⟩⟩
  · obtain ⟨cause, located, failing⟩ := stops beyond
    obtain ⟨before, item, behind, place, failed, draws⟩ :=
      pack_of_failsOn valid bound failing located
    have count : (format.requests.take limit).length = limit :=
      List.length_take_of_le (Nat.le_of_lt beyond)
    rw [count] at place
    obtain ⟨width, found, refused⟩ := failing.refused
    rw [count] at found
    have early : (compile given).draws = [] := (compile_prepares given).draws_eq_nil
    refine ⟨before, item, behind, width, cause, place, found, by simpa using refused,
      (pack_of_compile compiled values source).trans failed, ?_, ?_⟩
    · rw [Traced.draws] at early draws ⊢
      rw [BitRecord.pack, Traced.events_bind_of_ok compiled, List.filterMap_append, early, draws]
      rfl
    · intro holder data offset start writable counted front fits
      obtain ⟨number, _, same⟩ := packInto_eq writable counted format data values source
      rw [if_pos ⟨front, fits⟩] at same
      have written : (BitRecord.packInto given (.buffer holder data) values offset
          source).outcome = .error (.placed cause item.position) := by
        rw [BitRecord.packInto, Traced.outcome_bind_of_ok compiled, same]
        exact Traced.outcome_bind_of_error failed _
      have in_place : (BitRecord.packInPlace given values offset source
          (.buffer holder data)).1.outcome = .error (.placed cause item.position) := by
        rw [packInPlace_eq, Traced.map_eq, written]
        rfl
      exact ⟨written, in_place, packInPlace_of_error in_place⟩

/-- With one number `pack` fails at the second of two random words, whose position is that of their
directive, and the buffer is as it was. With three numbers it succeeds. -/
theorem pack_stops_at_refusal_noisy :
    (BitRecord.pack noisy.given (.list []) (.finite #[7])).outcome =
      .error (.placed .sourceExhausted 3) ∧
    (BitRecord.pack noisy.given (.list []) (.finite #[7])).draws = [16] ∧
    (BitRecord.packInPlace noisy.given (.list []) (.integer 1) (.finite #[7])
        (.buffer .byteArray [9, 9, 9, 9, 9, 9])).2 = .buffer .byteArray [9, 9, 9, 9, 9, 9] ∧
    ∃ record,
      (BitRecord.pack noisy.given (.list []) (.finite #[7, 8, 9])).outcome = .ok record := by
  have bound : (noisy.bind (.list [])).outcome = .ok [] := rfl
  obtain ⟨_, stops⟩ := pack_stops_at_refusal compile_noisy bound
    (RandomSource.failsAfter_finite #[7])
  obtain ⟨enough, _⟩ := pack_stops_at_refusal compile_noisy bound
    (RandomSource.failsAfter_finite #[7, 8, 9])
  obtain ⟨before, item, behind, width, cause, place, found, refused, failed, draws, buffers⟩ :=
    stops (by decide)
  obtain rfl : 16 = width := Option.some.inj found
  obtain rfl : Cause.sourceExhausted = cause := Except.error.inj refused
  have words : Record.DrawnFor noisy.items 1 [noisy.items[0]] noisy.items[1] [noisy.items[2]] :=
    ⟨rfl, ⟨_, rfl, rfl⟩, by decide, by decide⟩
  rw [place.unique words] at failed buffers
  refine ⟨failed, draws, ?_, enough.mpr (by decide)⟩
  exact (buffers .byteArray _ (.integer 1) 1 rfl rfl (by decide) (by decide)).2.2

end Format

end BitRecord
