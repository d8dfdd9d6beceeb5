/-
# The walks over a format agree

The size of a format is computed from its directives alone, while `Format.write`
and `Format.read` keep cursors of their own: the number of bits written, and the
number of bits taken. All three are at the same bit when a directive is
processed. `Format.read` may fail early, but up to there it logs the same
directives at the same bits as `Format.write`.
-/

import BitRecord.Proofs.Record.Acceptance
import BitRecord.Proofs.Record.Reencoding
import BitRecord.Proofs.Record.Refusal

namespace BitRecord

namespace Event

/-- The directive and the position of a `packing` event. -/
def packing? : Event → Option (Directive × Nat)
  | packing directive position => some (directive, position)
  | _ => none

/-- The directive and the position of an `unpacking` event. -/
def unpacking? : Event → Option (Directive × Nat)
  | unpacking directive position => some (directive, position)
  | _ => none

theorem packing?_of_isPreparation {event : Event} (early : event.isPreparation = true) :
    event.packing? = none := by
  rcases eq_of_isPreparation early with ⟨_, _, rfl⟩ | ⟨_, _, rfl⟩ <;> rfl

theorem unpacking?_of_isPreparation {event : Event} (early : event.isPreparation = true) :
    event.unpacking? = none := by
  rcases eq_of_isPreparation early with ⟨_, _, rfl⟩ | ⟨_, _, rfl⟩ <;> rfl

end Event

namespace Layout

/-- The directive of a visit and the position of its event: the approach to the start of a field,
the cursor itself for a literal. -/
def turnOf (visit : Item × Nat) : Directive × Nat :=
  (visit.1.directive, visit.1.directive.turn visit.2)

end Layout

namespace Directive

/-- The events of `encode` hold no `packing` event. -/
theorem filterMap_encodingEvents (directive : Directive) (arguments : List Argument) :
    (directive.encodingEvents arguments).filterMap Event.packing? = [] := by
  refine List.filterMap_eq_nil_iff.mpr fun event member => ?_
  cases directive with
  | literal data => contradiction
  | field field =>
      unfold encodingEvents at member
      dsimp only at member
      cases fill : field.fill with
      | some mode =>
          rw [fill] at member
          obtain ⟨width, _, rfl⟩ := List.mem_map.mp member
          rfl
      | none =>
          rw [fill] at member
          cases arguments with
          | nil => contradiction
          | cons argument others =>
              dsimp only [List.head?_cons, Option.elim_some] at member
              unfold Field.paddingEvents at member
              split at member
              · split at member
                · rw [List.mem_singleton.mp member]
                  rfl
                · contradiction
              · contradiction

end Directive

namespace Record

variable {record : Bytes} {cursor : Nat} {items : List Item}

/-- The `packing` events of `writingEvents` are those of the layout, in order. -/
theorem filterMap_writingEvents (cursor : Nat) (items : List Item) (arguments : List Argument) :
    (writingEvents cursor items arguments).filterMap Event.packing? =
      (Layout.visits cursor items).map Layout.turnOf := by
  induction items generalizing cursor arguments with
  | nil => rfl
  | cons item items ih =>
      have own : (packingEvent (item, cursor)).packing? = some (Layout.turnOf (item, cursor)) := rfl
      rw [writingEvents, List.filterMap_append, List.filterMap_cons_some own,
        Directive.filterMap_encodingEvents, ih]
      rfl

private theorem filterMap_unpackingEvents (visits : List (Item × Nat)) :
    (visits.map unpackingEvent).filterMap Event.unpacking? = visits.map Layout.turnOf := by
  rw [List.filterMap_map, ← List.filterMap_eq_map]
  rfl

private theorem filterMap_reportFailure (item : Item) (failure : Failure) :
    (reportFailure item failure).filterMap Event.unpacking? = [] := by
  unfold reportFailure
  split <;> rfl

/-- The `unpacking` events of a read are those of a first part of the layout. -/
theorem filterMap_read (valid : ∀ item ∈ items, item.directive.Valid)
    (inside : cursor ≤ 8 * record.length) :
    (read items (.atBit record cursor)).events.filterMap Event.unpacking? <+:
      (Layout.visits cursor items).map Layout.turnOf := by
  rw [read_eq_map, Traced.map_eq]
  rcases clear_or_obstacle record (Layout.visits cursor items) with
    clear | ⟨front, visit, back, cause, reached, clear, stopped⟩
  · have turns := filterMap_unpackingEvents (Layout.visits cursor items)
    rw [readThrough_of_clear valid inside clear]
    exact turns ▸ List.prefix_refl _
  · rw [readThrough_of_obstacle valid inside reached clear stopped, List.filterMap_append,
      filterMap_unpackingEvents, filterMap_reportFailure, List.append_nil, reached]
    exact ⟨back.map Layout.turnOf, by simp⟩

/-- `readThrough` that succeeds has the `unpacking` events of the whole layout and ends at its
stop. -/
theorem readThrough_of_read (valid : ∀ item ∈ items, item.directive.Valid)
    (inside : cursor ≤ 8 * record.length) {payloads : List Payload}
    (success : (read items (.atBit record cursor)).outcome = .ok payloads) :
    (read items (.atBit record cursor)).events.filterMap Event.unpacking? =
        (Layout.visits cursor items).map Layout.turnOf ∧
      (readThrough items (.atBit record cursor)).outcome =
        .ok (payloads, .atBit record (Layout.stop cursor (items.map Item.directive))) := by
  have clear := (read_succeeds_iff valid inside).mp ⟨payloads, success⟩
  have walked := readThrough_of_clear valid inside clear
  rw [read_eq_map, Traced.map_eq, walked] at success ⊢
  rw [filterMap_unpackingEvents, ← Except.ok.inj success]
  exact ⟨rfl, rfl⟩

end Record

namespace Format

variable {given values buffer length : Value} {source : RandomSource} {format : Format}
  {arguments : List Argument} {numbers : List Nat} {payloads : List Payload}

/-- Every directive of `format` with the position of its event. -/
def turns (format : Format) : List (Directive × Nat) :=
  (Layout.visits 0 format.items).map Layout.turnOf

/-- `unpack` fails before `read` with no event of a directive, or it is `read` from the start of a
record. -/
theorem unpack_cases (format : Format) (buffer length : Value) :
    (format.unpack buffer length).events = [] ∧
        (∃ failure, (format.unpack buffer length).outcome = .error failure) ∨
      ∃ record, Reader.ofValue buffer length = .ok (.atBit record 0) ∧
        format.unpack buffer length = Record.read format.items (.atBit record 0) := by
  cases readable : Reader.ofValue buffer length with
  | error cause =>
      left
      rw [unpack, readable]
      exact ⟨rfl, _, rfl⟩
  | ok reader =>
      right
      obtain ⟨bytes, size, _, _, rfl⟩ := Reader.ofValue_eq_ok readable
      exact ⟨bytes.take size, rfl, format.unpack_of_reader readable⟩

/-- `unpack` gives as many payloads as there are fields that take a value. -/
theorem length_of_unpack (valid : ∀ directive ∈ format.directives, directive.Valid)
    (unpacked : (format.unpack buffer length).outcome = .ok payloads) :
    payloads.length = format.arity := by
  obtain ⟨record, _, enough, _, rfl⟩ := (unpack_outcome_eq_ok_iff valid).mp unpacked
  have reaches : Layout.stop 0 format.directives ≤ (Bits.ofBytes record).length := by
    rw [Bits.length_ofBytes]
    exact size_le_iff.mp enough
  have carried := Record.carries_contents valid (Layout.fits_slices reaches)
  rw [arity_eq]
  exact carried.length_eq.symm

/-- `bind` refuses a sequence of another length than the fields with the cause for the count. -/
theorem bind_of_count_ne {items : List Value} (several : values.isSingle = false)
    (listed : values.items? = some items)
    (countable : values.hasItemsBelow Value.countBound = true)
    (listable : values.hasItemsBelow Value.listBound = true)
    (different : items.length ≠ format.arity) :
    (format.bind values).outcome =
      .error (.unplaced (.valueCount format.arity items.length)) := by
  rw [bind, Value.itemCount?_eq, listed]
  simp [several, countable, listable, different]

/-- `pack` logs every directive with the position of the layout, then the `packed` event with the
size in bits. -/
theorem pack_turns (compiled : (compile given).outcome = .ok format)
    (bound : (format.bind values).outcome = .ok arguments)
    (answered : source.answers #[] format.requests = .ok numbers)
    (fits : ∀ entry ∈ Record.entries format.directives arguments numbers, entry.Fits) :
    (BitRecord.pack given values source).events.filterMap Event.packing? = format.turns ∧
      (BitRecord.pack given values source).events.getLast? =
        some (.packed format.bitSize format.size) := by
  have packed := pack_eq (valid_of_compile compiled) bound answered fits
  rw [BitRecord.pack, Traced.eq_of_outcome compiled, Traced.ok_bind, packed]
  apply And.intro
  · have reading := (compile_prepares given).filterMap_eq_nil
      fun event => Event.packing?_of_isPreparation
    have binding := (bind_prepares format values).filterMap_eq_nil
      fun event => Event.packing?_of_isPreparation
    simp only [List.filterMap_append, reading, binding, Record.filterMap_writingEvents]
    exact List.append_nil _
  · simp

/-- `unpack` logs a first part of the directives with the positions of the layout. -/
theorem unpack_turns (compiled : (compile given).outcome = .ok format) (buffer length : Value) :
    (BitRecord.unpack given buffer length).events.filterMap Event.unpacking? <+: format.turns := by
  have reading := (compile_prepares given).filterMap_eq_nil
    fun event => Event.unpacking?_of_isPreparation
  rw [BitRecord.unpack, Traced.events_bind_of_ok compiled, List.filterMap_append, reading,
    List.nil_append]
  rcases format.unpack_cases buffer length with ⟨silent, _⟩ | ⟨record, _, same⟩
  · rw [silent]
    exact List.nil_prefix
  · rw [same]
    exact Record.filterMap_read (valid_items (valid_of_compile compiled)) (Nat.zero_le _)

/-- `unpack` that succeeds logs every directive, and its reader ends at the size of the format. -/
theorem unpack_through (compiled : (compile given).outcome = .ok format)
    (unpacked : (BitRecord.unpack given buffer length).outcome = .ok payloads) :
    (BitRecord.unpack given buffer length).events.filterMap Event.unpacking? = format.turns ∧
      ∃ reader final, Reader.ofValue buffer length = .ok reader ∧
        (Record.readThrough format.items reader).outcome = .ok (payloads, final) ∧
        final.position = format.bitSize := by
  have reading := (compile_prepares given).filterMap_eq_nil
    fun event => Event.unpacking?_of_isPreparation
  rw [unpack_of_compile compiled] at unpacked
  rw [BitRecord.unpack, Traced.events_bind_of_ok compiled, List.filterMap_append, reading,
    List.nil_append]
  rcases format.unpack_cases buffer length with ⟨_, _, failed⟩ | ⟨record, readable, same⟩
  · rw [failed] at unpacked
    contradiction
  · rw [same] at unpacked ⊢
    obtain ⟨turns, through⟩ := Record.readThrough_of_read
      (valid_items (valid_of_compile compiled)) (Nat.zero_le _) unpacked
    exact ⟨turns, _, _, readable, through, rfl⟩

/-- `bind` accepts a sequence only when it has as many values as the format has fields that take
one. -/
theorem length_of_bind {items : List Value} (listed : values.items? = some items)
    (bound : (format.bind values).outcome = .ok arguments) : items.length = format.arity := by
  obtain ⟨_, _, _, own, own_listed, each⟩ := bind_outcome_eq_ok_iff.mp bound
  obtain rfl := Option.some.inj (listed.symm.trans own_listed)
  rw [each.length_eq, arity_eq]

/-- The walks of `pack` and `unpack` keep to the layout. `pack` logs every directive with its
position there, ends after the last bit of the layout and completes the last byte with zeros.
`unpack` logs the same directives with the same positions up to where it fails, and ends at the same
bit when it succeeds. There is a value for each field that takes one, in `bind` and in the result of
`unpack`, and any other number of values is refused. -/
theorem walks_agree (compiled : (compile given).outcome = .ok format)
    (bound : (format.bind values).outcome = .ok arguments) (in_range : source.InRange) :
    (∃ final record,
      (Record.writeThrough source format.items arguments .empty).outcome = .ok (final, []) ∧
      final.writer.position = format.bitSize ∧
      (BitRecord.pack given values source).outcome = .ok record ∧ record = final.writer.bytes ∧
      (BitRecord.pack given values source).events.getLast? =
        some (.packed format.bitSize record.length) ∧
      record.length = format.size ∧
      format.bitSize ≤ 8 * format.size ∧ 8 * format.size < format.bitSize + 8 ∧
      (Bits.ofBytes record).drop format.bitSize =
        List.replicate (toBoundary format.bitSize) false) ∧
    (BitRecord.pack given values source).events.filterMap Event.packing? = format.turns ∧
    (∀ buffer length : Value,
      (BitRecord.unpack given buffer length).events.filterMap Event.unpacking? <+:
        (BitRecord.pack given values source).events.filterMap Event.packing?) ∧
    (∀ (buffer length : Value) (payloads : List Payload),
      (BitRecord.unpack given buffer length).outcome = .ok payloads →
      (BitRecord.unpack given buffer length).events.filterMap Event.unpacking? =
        (BitRecord.pack given values source).events.filterMap Event.packing? ∧
      (∃ reader final, Reader.ofValue buffer length = .ok reader ∧
        (Record.readThrough format.items reader).outcome = .ok (payloads, final) ∧
        final.position = format.bitSize) ∧
      payloads.length = format.arity) ∧
    arguments.length = format.arity ∧
    (∀ (others : Value) (items : List Value), others.items? = some items →
      (∀ accepted, (format.bind others).outcome = .ok accepted → items.length = format.arity) ∧
      (others.isSingle = false → others.hasItemsBelow Value.countBound = true →
        others.hasItemsBelow Value.listBound = true → items.length ≠ format.arity →
        (format.bind others).outcome =
          .error (.unplaced (.valueCount format.arity items.length)))) := by
  have valid := valid_of_compile compiled
  obtain ⟨_, _, _, _, _, each⟩ := bind_outcome_eq_ok_iff.mp bound
  obtain ⟨numbers, answered, fits⟩ := exists_answers_fit in_range valid bound
  obtain ⟨turns, last⟩ := pack_turns compiled bound answered fits
  obtain ⟨final, record, written, position, packed, bytes, length, completion⟩ :=
    pack_through compiled bound answered fits
  refine ⟨⟨final, record, written, position, packed, bytes, ?_, length, ?_, ?_, completion⟩,
    turns, ?_, ?_, ?_, ?_⟩
  · rw [last, length]
  · exact size_le_iff.mp (Nat.le_refl _)
  · rw [size]
    omega
  · intro buffer length
    rw [turns]
    exact unpack_turns compiled buffer length
  · intro buffer length payloads unpacked
    obtain ⟨same, through⟩ := unpack_through compiled unpacked
    have direct : (format.unpack buffer length).outcome = .ok payloads := by
      rwa [BitRecord.unpack, Traced.outcome_bind_of_ok compiled] at unpacked
    exact ⟨same.trans turns.symm, through, length_of_unpack valid direct⟩
  · rw [arity_eq, each.carried.length_eq]
  · intro others items listed
    exact ⟨fun accepted success => length_of_bind listed success,
      fun several countable listable different =>
        bind_of_count_ne several listed countable listable different⟩

/-- For `mixed`: the event of the literal has the position in front of the padding, and the
directives behind the literal are not all on byte boundaries. -/
theorem walks_agree_mixed :
    (BitRecord.pack mixed.given mixedValues (.cyclic #[1])).events.filterMap Event.packing? =
        mixed.turns ∧
      mixed.turns.map Prod.snd = [0, 3, 16, 17, 33] ∧
      ∃ record, (BitRecord.pack mixed.given mixedValues (.cyclic #[1])).outcome = .ok record ∧
        record.length = 7 := by
  obtain ⟨⟨_, record, _, _, packed, _, _, size, _⟩, turns, _⟩ :=
    walks_agree compile_mixed bind_mixedValues
      (RandomSource.inRange_cyclic (show 0 < (#[1] : Array Int).size by decide))
  exact ⟨turns, by decide, record, packed, size⟩

end Format

end BitRecord
