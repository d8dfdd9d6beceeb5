/-
# Formats behind each other

The text of one format behind that of another is a format again, unless the
second text starts with a fill for the last field of the first. When the second
part starts on a byte boundary, the size is the sum, `pack` gives a record of the
one behind a record of the other with the requests of both in order, and `unpack`
gives the payloads of both parts.
-/

import BitRecord.Proofs.Record.Seam

namespace BitRecord

namespace Directive

/-- The draws of encoding a directive are the requests of its random fill. -/
theorem draws_encodingEvents (directive : Directive) (arguments : List Argument) :
    (directive.encodingEvents arguments).filterMap Event.drawn? = directive.requests := by
  cases directive with
  | literal data => rfl
  | field field =>
      unfold encodingEvents
      dsimp only
      cases fill : field.fill with
      | some mode =>
          rw [List.filterMap_map]
          exact List.filterMap_some
      | none =>
          rw [requests, Field.requests_of_given fill]
          cases arguments with
          | nil => rfl
          | cons argument others =>
              dsimp only [List.head?_cons, Option.elim_some]
              unfold Field.paddingEvents
              split
              · split
                · rfl
                · rfl
              · rfl

end Directive

/-- The draws of writing items are the requests of all random fills in turn. -/
theorem Record.draws_writingEvents (cursor : Nat) (items : List Item) (arguments : List Argument) :
    (writingEvents cursor items arguments).filterMap Event.drawn? =
      (items.map Item.directive).flatMap Directive.requests := by
  induction items generalizing cursor arguments with
  | nil => rfl
  | cons item items ih =>
      have own : (packingEvent (item, cursor)).drawn? = none := rfl
      rw [writingEvents, List.filterMap_append, List.filterMap_cons_none own,
        Directive.draws_encodingEvents, ih, List.map_cons, List.flatMap_cons]

/-- Whether `Format.bind` finds some items in a value. -/
def Value.Lists (values : Value) (items : List Value) : Prop :=
  values.isSingle = false ∧ values.hasItemsBelow Value.countBound = true ∧
    values.hasItemsBelow Value.listBound = true ∧ values.items? = some items

namespace Format

variable {front back whole : Format}

/-- The draws of a record that is packed are the requests of its format. -/
theorem draws_of_pack {given values : Value} {source : RandomSource} {format : Format}
    (compiled : (compile given).outcome = .ok format) {record : Bytes}
    (packed : (BitRecord.pack given values source).outcome = .ok record) :
    (BitRecord.pack given values source).draws = format.requests := by
  have valid := valid_of_compile compiled
  rw [pack_of_compile compiled] at packed
  obtain ⟨arguments, numbers, bound, answered, fits, _⟩ := exists_of_pack valid packed
  have early : (compile given).draws = [] := (compile_prepares given).draws_eq_nil
  have binding : (format.bind values).draws = [] := (bind_prepares format values).draws_eq_nil
  rw [Traced.draws] at early binding
  rw [BitRecord.pack, Traced.draws, Traced.events_bind_of_ok compiled,
    pack_eq valid bound answered fits]
  dsimp only
  rw [List.filterMap_append, List.filterMap_append, List.filterMap_append, early, binding,
    Record.draws_writingEvents]
  exact List.append_nil _

section Joined

variable (joined : Directive.Covers whole.directives (front.directives ++ back.directives))
  (seam : Layout.FromBoundary front.bitSize back.directives)

include joined in
theorem requests_joined : whole.requests = front.requests ++ back.requests := by
  rw [requests, joined.requests, List.flatMap_append]
  rfl

include joined in
theorem givenFields_joined : whole.givenFields = front.givenFields ++ back.givenFields := by
  rw [givenFields, joined.givenFields, Directive.givenFields, List.filterMap_append]
  rfl

private theorem bitSize_boundary (format : Format) :
    format.bitSize + toBoundary format.bitSize = 8 * format.size := by
  rw [size, toBoundary]
  omega

include joined seam in
/-- The second part of a record starts behind the bytes of the first one. -/
theorem bitSize_joined : whole.bitSize = 8 * front.size + back.bitSize := by
  have parts : whole.bitSize = Layout.stop front.bitSize back.directives := by
    rw [bitSize, joined.stop, Layout.stop_append, bitSize]
  rw [parts, Layout.stop_boundary seam, bitSize_boundary]
  exact Layout.stop_add front.size 0 back.directives

include joined seam in
theorem size_joined : whole.size = front.size + back.size := by
  have bits := bitSize_joined joined seam
  unfold size at bits ⊢
  omega

variable {arguments rest : List Argument} {numbers more : List Nat}

include joined seam in
/-- The bytes of the whole are those of its two parts. -/
theorem toBytes_layOut_joined
    (front_valid : ∀ directive ∈ front.directives, directive.Valid)
    (back_valid : ∀ directive ∈ back.directives, directive.Valid)
    (carried : List.Forall₂ (fun field argument => field.Carries argument.payload)
      front.givenFields arguments)
    (rest_carried : List.Forall₂ (fun field argument => field.Carries argument.payload)
      back.givenFields rest)
    (enough : numbers.length = front.requests.length)
    (more_enough : more.length = back.requests.length) :
    (whole.layOut (Record.images whole.givenFields (arguments ++ rest)) (numbers ++ more)).toBytes =
      (front.layOut (Record.images front.givenFields arguments) numbers).toBytes
        ++ (back.layOut (Record.images back.givenFields rest) more).toBytes := by
  have fits : Layout.Fits front.directives
      (Record.bodies front.directives (Record.images front.givenFields arguments) numbers) :=
    Record.fits_bodies (Record.length_images front_valid carried) (Nat.le_of_eq enough.symm)
  have back_fits : Layout.Fits back.directives
      (Record.bodies back.directives (Record.images back.givenFields rest) more) :=
    Record.fits_bodies (Record.length_images back_valid rest_carried)
      (Nat.le_of_eq more_enough.symm)
  let first := front.layOut (Record.images front.givenFields arguments) numbers
  let second := back.layOut (Record.images back.givenFields rest) more
  have length : first.length = front.bitSize := by
    have reached := Layout.length_place fits 0
    rwa [Nat.zero_add] at reached
  have bits : whole.layOut (Record.images whole.givenFields (arguments ++ rest)) (numbers ++ more) =
      first.completed ++ second :=
    calc whole.layOut (Record.images whole.givenFields (arguments ++ rest)) (numbers ++ more)
      _ = Layout.place 0 (front.directives ++ back.directives)
            (Record.bodies front.directives (Record.images front.givenFields arguments) numbers
              ++ Record.bodies back.directives (Record.images back.givenFields rest) more) := by
          rw [layOut, joined.place, givenFields, joined.givenFields,
            (Record.bodies_entries_append carried enough back.directives rest more).1]
          rfl
      _ = first ++ Layout.place front.bitSize back.directives
            (Record.bodies back.directives (Record.images back.givenFields rest) more) :=
          Layout.place_append fits 0 _ _
      _ = first ++ (List.replicate (toBoundary front.bitSize) false
            ++ Layout.place (8 * front.size + 0) back.directives
              (Record.bodies back.directives (Record.images back.givenFields rest) more)) := by
          rw [Layout.place_boundary seam back_fits, bitSize_boundary]
          rfl
      _ = first.completed ++ second := by
          rw [Layout.place_add, Bits.completed, length, List.append_assoc]
          rfl
  rw [bits, ← Bits.ofBytes_toBytes, Bits.toBytes_ofBytes_append]

variable {firstValues secondValues values : Value} {us vs : List Value} {source : RandomSource}

include joined in
/-- Values for the two parts, one behind the other, are bound to the whole. -/
theorem bind_joined (first_listed : firstValues.Lists us) (second_listed : secondValues.Lists vs)
    (listed : values.Lists (us ++ vs))
    (first_bound : (front.bind firstValues).outcome = .ok arguments)
    (second_bound : (back.bind secondValues).outcome = .ok rest) :
    (whole.bind values).outcome = .ok (arguments ++ rest) := by
  obtain ⟨_, _, _, first_items, first_same, first_each⟩ := bind_outcome_eq_ok_iff.mp first_bound
  obtain ⟨_, _, _, second_items, second_same, second_each⟩ :=
    bind_outcome_eq_ok_iff.mp second_bound
  obtain rfl := Option.some.inj (first_same.symm.trans first_listed.2.2.2)
  obtain rfl := Option.some.inj (second_same.symm.trans second_listed.2.2.2)
  obtain ⟨several, countable, listable, items⟩ := listed
  refine bind_outcome_eq_ok_iff.mpr ⟨several, countable, listable, _, items, ?_⟩
  rw [givenFields_joined joined]
  exact first_each.append second_each

include joined seam in
/-- A record of the whole is a record of the first part and one of the second part, whose requests
follow those of the first. -/
theorem pack_joined (front_valid : ∀ directive ∈ front.directives, directive.Valid)
    (back_valid : ∀ directive ∈ back.directives, directive.Valid)
    (valid : ∀ directive ∈ whole.directives, directive.Valid)
    (first_bound : (front.bind firstValues).outcome = .ok arguments)
    (second_bound : (back.bind secondValues).outcome = .ok rest)
    (bound : (whole.bind values).outcome = .ok (arguments ++ rest)) {record : Bytes} :
    (whole.pack values source).outcome = .ok record ↔
      ∃ first second, (front.pack firstValues source).outcome = .ok first ∧
        (back.pack secondValues (source.after front.requests)).outcome = .ok second ∧
        record = first ++ second := by
  obtain ⟨_, _, _, _, _, first_each⟩ := bind_outcome_eq_ok_iff.mp first_bound
  obtain ⟨_, _, _, _, _, second_each⟩ := bind_outcome_eq_ok_iff.mp second_bound
  have requests := requests_joined joined
  have split {numbers more : List Nat} (answered : source.answers #[] front.requests = .ok numbers)
      (more_answered : (source.after front.requests).answers #[] back.requests = .ok more) :
      (whole.layOut (Record.images whole.givenFields (arguments ++ rest))
          (numbers ++ more)).toBytes =
        (front.layOut (Record.images front.givenFields arguments) numbers).toBytes
          ++ (back.layOut (Record.images back.givenFields rest) more).toBytes ∧
      Record.entries whole.directives (arguments ++ rest) (numbers ++ more) =
        Record.entries front.directives arguments numbers
          ++ Record.entries back.directives rest more := by
    have enough := RandomSource.length_of_answers answered
    refine ⟨toBytes_layOut_joined joined seam front_valid back_valid first_each.carried
      second_each.carried enough (RandomSource.length_of_answers more_answered), ?_⟩
    rw [joined.entries,
      (Record.bodies_entries_append first_each.carried enough back.directives rest more).2]
  apply Iff.intro
  · intro packed
    obtain ⟨found, numbers, found_bound, answered, fits, rfl⟩ := exists_of_pack valid packed
    obtain rfl := Except.ok.inj (bound.symm.trans found_bound)
    rw [requests] at answered
    obtain ⟨numbers, more, first_answered, second_answered, rfl⟩ :=
      RandomSource.answers_behind.mp answered
    obtain ⟨bytes, entries⟩ := split first_answered second_answered
    rw [entries, List.forall_mem_append] at fits
    refine ⟨_, _, ?_, ?_, bytes⟩
    · rw [pack_eq front_valid first_bound first_answered fits.1]
    · rw [pack_eq back_valid second_bound second_answered fits.2]
  · intro parts
    obtain ⟨first, second, first_packed, second_packed, rfl⟩ := parts
    obtain ⟨found, numbers, found_bound, first_answered, first_fits, rfl⟩ :=
      exists_of_pack front_valid first_packed
    obtain rfl := Except.ok.inj (first_bound.symm.trans found_bound)
    obtain ⟨found, more, found_bound, second_answered, second_fits, rfl⟩ :=
      exists_of_pack back_valid second_packed
    obtain rfl := Except.ok.inj (second_bound.symm.trans found_bound)
    obtain ⟨bytes, entries⟩ := split first_answered second_answered
    have answered : source.answers #[] whole.requests = .ok (numbers ++ more) := by
      rw [requests]
      exact RandomSource.answers_behind.mpr
        ⟨numbers, more, first_answered, second_answered, rfl⟩
    have fits : ∀ entry ∈ Record.entries whole.directives (arguments ++ rest) (numbers ++ more),
        entry.Fits := by
      rw [entries]
      exact List.forall_mem_append.mpr ⟨first_fits, second_fits⟩
    rw [pack_eq valid bound answered fits, bytes]

include seam in
/-- The places of the second part are those that it has in the bytes behind the first one. -/
theorem slices_behind (record : Bytes) :
    Layout.slices (Bits.ofBytes record) front.bitSize back.directives =
      back.slices (record.drop front.size) := by
  rw [Layout.slices_boundary seam, bitSize_boundary]
  exact Layout.slices_add record front.size 0 back.directives

include joined seam in
/-- The contents of the whole are those of its two parts. -/
theorem contents_joined (record : Bytes) :
    Record.contents whole.directives (whole.slices record) =
      Record.contents front.directives (front.slices record)
        ++ Record.contents back.directives (back.slices (record.drop front.size)) := by
  rw [slices, joined.contents, Record.contents_slices_append, ← slices_behind seam]
  rfl

include joined seam in
/-- The literals of the whole agree with a record when those of its parts do. -/
theorem agrees_joined (record : Bytes)
    (first : List.Forall₂ Directive.Agrees front.directives (front.slices record))
    (second : List.Forall₂ Directive.Agrees back.directives
      (back.slices (record.drop front.size))) :
    List.Forall₂ Directive.Agrees whole.directives (whole.slices record) := by
  apply joined.agrees
  rw [Layout.slices_append]
  rw [← slices_behind seam] at second
  exact List.rel_append first second

end Joined

/-- The format of two texts behind each other is joined from the formats of both. -/
theorem exists_joined {first second : String}
    (front_compiled : (compile (.text first)).outcome = .ok front)
    (back_compiled : (compile (.text second)).outcome = .ok back)
    (apart : ¬ ((∃ field, front.directives.getLast? = some (.field field) ∧ field.fill = none) ∧
      ∃ next, second.toList.head? = some next ∧ (next = '0' ∨ next = '1' ∨ next = 'r'))) :
    ∃ whole, (compile (.text (first ++ second))).outcome = .ok whole ∧
      whole.items = Item.join front.items (back.items.map (Item.shift first.length)) ∧
      Directive.Covers whole.directives (front.directives ++ back.directives) := by
  refine ⟨_, compile_append front_compiled back_compiled ?_, rfl, ?_⟩
  · intro field last no_fill next head
    by_contra some_fill
    rw [Fill.ofFlag?_eq_none_iff] at some_fill
    exact apart ⟨⟨field, last, no_fill⟩, next, head, by tauto⟩
  · have joined := Directive.covers_join front.items (back.items.map (Item.shift first.length))
    rw [List.map_map] at joined
    exact joined

/-- `compile` of two accepted texts behind each other gives the directives of both, those of the
second one shifted by the length of the first text and two literals at the seam as one, unless the
second text starts with a fill for the last field of the first. When the second part starts on a
byte boundary, the sizes add up, `pack` gives the record of the first part and that of the second
one behind it with the requests of one after the other, and `unpack` gives the payloads of both
parts. -/
theorem concatenates {first second : String} {front back : Format}
    (front_compiled : (compile (.text first)).outcome = .ok front)
    (back_compiled : (compile (.text second)).outcome = .ok back)
    (apart : ¬ ((∃ field, front.directives.getLast? = some (.field field) ∧ field.fill = none) ∧
      ∃ next, second.toList.head? = some next ∧ (next = '0' ∨ next = '1' ∨ next = 'r'))) :
    ∃ whole, (compile (.text (first ++ second))).outcome = .ok whole ∧
      whole.items = Item.join front.items (back.items.map (Item.shift first.length)) ∧
      (Layout.FromBoundary front.bitSize back.directives →
        whole.size = front.size + back.size ∧
        (∀ firstValues secondValues values us vs arguments rest source,
          Value.Lists firstValues us → Value.Lists secondValues vs →
          Value.Lists values (us ++ vs) →
          (front.bind firstValues).outcome = .ok arguments →
          (back.bind secondValues).outcome = .ok rest →
          (∀ record, (BitRecord.pack (.text (first ++ second)) values source).outcome =
              .ok record ↔
            ∃ ahead behind,
              (BitRecord.pack (.text first) firstValues source).outcome = .ok ahead ∧
              (BitRecord.pack (.text second) secondValues
                (source.after front.requests)).outcome = .ok behind ∧
              record = ahead ++ behind) ∧
          (∀ record, (BitRecord.pack (.text (first ++ second)) values source).outcome =
              .ok record →
            (BitRecord.pack (.text (first ++ second)) values source).draws =
              (BitRecord.pack (.text first) firstValues source).draws
                ++ (BitRecord.pack (.text second) secondValues
                  (source.after front.requests)).draws) ∧
          (source.InRange → ∃ record,
            (BitRecord.pack (.text (first ++ second)) values source).outcome = .ok record)) ∧
        (∀ buffer rest bytes payloads more, Value.asBytes? buffer = some bytes →
          Value.asBytes? rest = some (bytes.drop front.size) →
          (BitRecord.unpack (.text first) buffer .null).outcome = .ok payloads →
          (BitRecord.unpack (.text second) rest .null).outcome = .ok more →
          (BitRecord.unpack (.text (first ++ second)) buffer .null).outcome =
            .ok (payloads ++ more))) := by
  obtain ⟨whole, whole_compiled, items, joined⟩ :=
    exists_joined front_compiled back_compiled apart
  have front_valid := valid_of_compile front_compiled
  have back_valid := valid_of_compile back_compiled
  have valid := valid_of_compile whole_compiled
  refine ⟨whole, whole_compiled, items, fun seam => ⟨size_joined joined seam, ?_, ?_⟩⟩
  · intro firstValues secondValues values us vs arguments rest source first_listed second_listed
      listed first_bound second_bound
    have bound := bind_joined joined first_listed second_listed listed first_bound second_bound
    rw [pack_of_compile whole_compiled, pack_of_compile front_compiled,
      pack_of_compile back_compiled]
    have parts (record : Bytes) := @pack_joined front back whole joined seam arguments rest
      firstValues secondValues values source front_valid back_valid valid first_bound second_bound
      bound record
    refine ⟨parts, fun record packed => ?_, fun in_range => ?_⟩
    · obtain ⟨ahead, behind, ahead_packed, behind_packed, _⟩ := (parts record).mp packed
      rw [← pack_of_compile whole_compiled] at packed
      rw [← pack_of_compile front_compiled] at ahead_packed
      rw [← pack_of_compile back_compiled] at behind_packed
      rw [draws_of_pack whole_compiled packed, draws_of_pack front_compiled ahead_packed,
        draws_of_pack back_compiled behind_packed, requests_joined joined]
    · obtain ⟨numbers, answered⟩ := in_range.exists_answers #[] whole.requests
      exact ⟨_, pack_outcome in_range valid bound answered⟩
  · intro buffer rest bytes payloads more held rest_held unpacked more_unpacked
    have asked (capacity : Nat) : Value.null.AsksFor capacity capacity := .inl ⟨rfl, rfl⟩
    obtain ⟨enough, agrees, rfl⟩ := (unpack_succeeds_iff front_compiled held (asked _)).mp unpacked
    obtain ⟨more_enough, more_agrees, rfl⟩ :=
      (unpack_succeeds_iff back_compiled rest_held (asked _)).mp more_unpacked
    rw [List.take_length] at agrees more_agrees
    rw [List.length_drop] at more_enough
    refine (unpack_succeeds_iff whole_compiled held (asked _)).mpr ⟨?_, ?_, ?_⟩
    · rw [size_joined joined seam]
      omega
    · rw [List.take_length]
      exact agrees_joined joined seam bytes agrees more_agrees
    · rw [List.take_length, List.take_length, contents_joined joined seam]

/-- A run of bits and a literal, with another literal and a byte behind them: the literals are one,
and the padding of the run stays in front of them. -/
theorem concatenates_literals :
    ∃ whole, (compile (.text ("%3iA" ++ "B%y"))).outcome = .ok whole ∧
      whole.directives = [.field ⟨.bit, 3, .native, false, none, .scalar⟩, .literal [65, 66],
        .field ⟨.byte, 1, .native, false, none, .scalar⟩] ∧
      whole.size = 4 ∧
      (BitRecord.pack (.text ("%3iA" ++ "B%y")) (.list [.integer 5, .integer 7])
        (.finite #[])).outcome = .ok [160, 65, 66, 7] := by
  have front_compiled := @compile_of_piecesWithin "%3iA" 4
    [⟨0, .field ⟨.bit, 3, .native, false, none, .scalar⟩⟩, ⟨3, .literal [65]⟩]
    (by decide) (by decide +kernel)
  have back_compiled := @compile_of_piecesWithin "B%y" 3
    [⟨0, .literal [66]⟩, ⟨1, .field ⟨.byte, 1, .native, false, none, .scalar⟩⟩]
    (by decide) (by decide +kernel)
  obtain ⟨whole, compiled, items, parts⟩ :=
    concatenates front_compiled back_compiled fun ends => by
      obtain ⟨⟨field, last, _⟩, _⟩ := ends
      exact Directive.noConfusion (Option.some.inj last)
  obtain ⟨size, packs, _⟩ := parts (.inr ⟨_, rfl, rfl⟩)
  refine ⟨whole, compiled, by rw [directives, items]; rfl, size, ?_⟩
  refine ((packs (.list [.integer 5]) (.list [.integer 7]) _ [.integer 5] [.integer 7] _ _ _
    ⟨rfl, rfl, rfl, rfl⟩ ⟨rfl, rfl, rfl, rfl⟩ ⟨rfl, rfl, rfl, rfl⟩ rfl rfl).1 _).mpr
      ⟨[160, 65], [66, 7], ?_, ?_, rfl⟩
  · exact (pack_of_compile front_compiled _ _).trans rfl
  · exact (pack_of_compile back_compiled _ _).trans rfl

end Format

end BitRecord
