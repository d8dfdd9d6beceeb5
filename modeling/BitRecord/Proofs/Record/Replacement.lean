/-
# Fields in place of others

Fields that take a value can be replaced by other such fields that take up the
same bits. The directives in front of them and behind them keep their places,
their values and their random numbers. So two formats that differ in a row of
such fields have the same records for values with the same bits in the row, and
`unpack` gives the same payloads in front of the row and behind it.
-/

import BitRecord.Proofs.Format.Printing
import BitRecord.Proofs.Record.Concatenation
import BitRecord.Proofs.Record.Reencoding

namespace BitRecord

/-- Values that are bound to fields in two parts are bound part by part. -/
theorem Bound.of_append {fields others : List Field} {values more : List Value}
    {arguments : List Argument} (bound : Bound (fields ++ others) (values ++ more) arguments)
    (enough : values.length = fields.length) :
    ∃ front back, arguments = front ++ back ∧ Bound fields values front ∧
      Bound others more back := by
  induction fields generalizing values arguments with
  | nil =>
      obtain rfl := List.eq_nil_of_length_eq_zero enough
      exact ⟨[], arguments, rfl, .nil, bound⟩
  | cons field fields ih =>
      cases values with
      | nil => contradiction
      | cons value values =>
          cases bound with
          | @cons _ _ payload _ _ arguments first later =>
              obtain ⟨front, back, rfl, front_bound, back_bound⟩ := ih later (Nat.succ.inj enough)
              exact ⟨_ :: front, back, rfl, .cons first front_bound, back_bound⟩

/-- A record has the literals of two lists of directives when it has those of each. -/
theorem Directive.agrees_append_iff {record : Bits} {cursor : Nat}
    {directives others : List Directive} :
    List.Forall₂ Agrees (directives ++ others)
        (Layout.slices record cursor (directives ++ others)) ↔
      List.Forall₂ Agrees directives (Layout.slices record cursor directives) ∧
        List.Forall₂ Agrees others
          (Layout.slices record (Layout.stop cursor directives) others) := by
  induction directives generalizing cursor with
  | nil => exact (and_iff_right .nil).symm
  | cons directive directives ih =>
      rw [List.cons_append, Layout.slices, List.forall₂_cons, ih, Layout.slices, List.forall₂_cons,
        and_assoc, Layout.stop_cons]

/-! ## Rows of fields -/

namespace Record

variable {row : List Field}

/-- All fields of a row take a value. -/
theorem givenFields_row (given : ∀ field ∈ row, field.takesValue = true) :
    Directive.givenFields (row.map .field) = row := by
  induction row with
  | nil => rfl
  | cons field row ih =>
      obtain ⟨own, others⟩ := List.forall_mem_cons.mp given
      rw [List.map_cons, Directive.givenFields_given own, ih others]

/-- A row requests no numbers. -/
theorem requests_row (given : ∀ field ∈ row, field.takesValue = true) :
    (row.map Directive.field).flatMap Directive.requests = [] := by
  rw [List.flatMap_map, List.flatMap_eq_nil_iff]
  intro field member
  exact Field.requests_of_given (Field.takesValue_iff.mp (given field member))

/-- The bodies of a row are one image for each field. -/
theorem bodies_row (given : ∀ field ∈ row, field.takesValue = true) {images : List Bits}
    (enough : images.length = row.length) (numbers : List Nat) :
    bodies (row.map .field) images numbers = images := by
  induction row generalizing images with
  | nil => exact (List.eq_nil_of_length_eq_zero enough).symm
  | cons field row ih =>
      obtain ⟨own, others⟩ := List.forall_mem_cons.mp given
      cases images with
      | nil => contradiction
      | cons image images =>
          rw [List.map_cons, bodies_given (Field.takesValue_iff.mp own),
            ih others (Nat.succ.inj enough)]

/-- The contents of a row are those of its fields. -/
theorem contents_row (given : ∀ field ∈ row, field.takesValue = true) (bodies : List Bits) :
    contents (row.map .field) bodies = List.zipWith Field.content row bodies := by
  induction row generalizing bodies with
  | nil => cases bodies <;> rfl
  | cons field row ih =>
      obtain ⟨own, others⟩ := List.forall_mem_cons.mp given
      cases bodies with
      | nil => rfl
      | cons body bodies =>
          rw [List.map_cons, contents, Directive.content?, if_pos own, ih others]
          rfl

/-- Whether two rows with their values are interchangeable: the rows end in the same place from
every cursor, both lists of values are bound or none is, and the places of the rows get the same
bits. -/
structure Interchangeable (row other : List Field) (values others : List Value) : Prop where
  enough : values.length = row.length
  other_enough : others.length = other.length
  stops : ∀ cursor, Layout.stop cursor (row.map .field) = Layout.stop cursor (other.map .field)
  forth : ∀ {own : List Argument}, Bound row values own → ∃ swapped, Bound other others swapped ∧
    ∀ cursor, Layout.place cursor (row.map .field) (images row own) =
      Layout.place cursor (other.map .field) (images other swapped)
  back : ∀ {swapped : List Argument}, Bound other others swapped → ∃ own, Bound row values own ∧
    ∀ cursor, Layout.place cursor (row.map .field) (images row own) =
      Layout.place cursor (other.map .field) (images other swapped)

theorem Interchangeable.symm {other : List Field} {values others : List Value}
    (interchange : Interchangeable row other values others) :
    Interchangeable other row others values where
  enough := interchange.other_enough
  other_enough := interchange.enough
  stops cursor := (interchange.stops cursor).symm
  forth bound := by
    obtain ⟨own, own_bound, places⟩ := interchange.back bound
    exact ⟨own, own_bound, fun cursor => (places cursor).symm⟩
  back bound := by
    obtain ⟨swapped, swapped_bound, places⟩ := interchange.forth bound
    exact ⟨swapped, swapped_bound, fun cursor => (places cursor).symm⟩

/-- A row agrees with all bits. -/
theorem agrees_row (row : List Field) (record : Bits) (cursor : Nat) :
    List.Forall₂ Directive.Agrees (row.map .field)
      (Layout.slices record cursor (row.map .field)) := by
  induction row generalizing cursor with
  | nil => exact .nil
  | cons field row ih => exact .cons trivial (ih _)

end Record

namespace Directive

variable {front back : List Directive} {row other : List Field}

/-- A field may follow every directive. -/
theorem mayPrecede_field (directive : Directive) (field : Field) :
    directive.MayPrecede (.field field) := by
  cases directive with
  | field | literal => trivial

/-- A row in front of other directives is printable when its fields are valid, their quantities are
below `DigitLimit.bound` and no literal behind it starts with a fill. -/
theorem printable_row_iff (given : ∀ field ∈ row, field.takesValue = true) (some_field : row ≠ []) :
    Printable (row.map .field ++ back) ↔
      (∀ field ∈ row, field.Valid ∧ field.count < DigitLimit.bound) ∧
        (∀ data, back.head? = some (.literal data) → ∀ byte, data.head? = some byte →
          byte ∉ [Piece.byte '0', Piece.byte '1', Piece.byte 'r']) ∧
        Printable back := by
  induction row with
  | nil => contradiction
  | cons field row ih =>
      obtain ⟨own, others⟩ := List.forall_mem_cons.mp given
      have no_fill := Field.takesValue_iff.mp own
      rw [List.map_cons, List.cons_append, printable_cons, List.forall_mem_cons]
      cases row with
      | nil =>
          apply Iff.intro
          · intro parts
            obtain ⟨valid, short, _, apart, printable⟩ := parts
            exact ⟨⟨⟨valid, short field rfl⟩, List.forall_mem_nil _⟩,
              fun data head => apart _ head no_fill, printable⟩
          · intro parts
            obtain ⟨⟨⟨valid, short⟩, _⟩, clear, printable⟩ := parts
            refine ⟨valid, fun f same => Directive.field.inj same ▸ short, field_filled _,
              fun next head => ?_, printable⟩
            cases next with
            | field other => exact mayPrecede_field _ other
            | literal data => exact fun _ => clear data head
      | cons second row =>
          rw [ih others (List.cons_ne_nil second row)]
          apply Iff.intro
          · intro parts
            obtain ⟨valid, short, _, _, others_valid, clear, printable⟩ := parts
            exact ⟨⟨⟨valid, short field rfl⟩, others_valid⟩, clear, printable⟩
          · intro parts
            obtain ⟨⟨⟨valid, short⟩, others_valid⟩, clear, printable⟩ := parts
            refine ⟨valid, fun f same => Directive.field.inj same ▸ short, field_filled _,
              fun next head => ?_, others_valid, clear, printable⟩
            obtain rfl := Option.some.inj head
            exact mayPrecede_field _ second

/-- Printable directives stay printable when a row is replaced by another one. -/
theorem Printable.replace (printable : Printable (front ++ (row.map .field ++ back)))
    (given : ∀ field ∈ row, field.takesValue = true) (some_field : row ≠ [])
    (other_given : ∀ field ∈ other, field.takesValue = true) (other_field : other ≠ [])
    (valid : ∀ field ∈ other, field.Valid ∧ field.count < DigitLimit.bound) :
    Printable (front ++ (other.map .field ++ back)) := by
  induction front with
  | nil =>
      obtain ⟨_, behind⟩ := (printable_row_iff given some_field).mp printable
      exact (printable_row_iff other_given other_field).mpr ⟨valid, behind⟩
  | cons directive front ih =>
      rw [List.cons_append, printable_cons] at printable ⊢
      obtain ⟨own_valid, short, filled, apart, rest⟩ := printable
      refine ⟨own_valid, short, filled, fun next head => ?_, ih rest⟩
      cases front with
      | nil =>
          obtain ⟨first, others, rfl⟩ := List.exists_cons_of_ne_nil other_field
          obtain rfl := Option.some.inj head
          exact mayPrecede_field directive first
      | cons second front => exact apart next head

end Directive

/-! ## Formats with a row -/

namespace Format

/-- Whether a row of fields that take a value stands between the other directives of a format. -/
structure HasRow (format : Format) (front : List Directive) (row : List Field)
    (back : List Directive) : Prop where
  valid : ∀ directive ∈ format.directives, directive.Valid
  split : format.directives = front ++ (row.map .field ++ back)
  given : ∀ field ∈ row, field.takesValue = true

namespace HasRow

variable {format first second : Format} {front back : List Directive} {row other : List Field}
  {values others : Value} {before between instead behind : List Value}
  {arguments own rest : List Argument} {source : RandomSource}

theorem givenFields_eq (has : format.HasRow front row back) :
    format.givenFields = Directive.givenFields front ++ (row ++ Directive.givenFields back) := by
  have alone := Record.givenFields_row has.given
  rw [Directive.givenFields] at alone
  rw [givenFields, has.split, Directive.givenFields, List.filterMap_append, List.filterMap_append,
    alone]
  rfl

theorem requests_eq (has : format.HasRow front row back) :
    format.requests = front.flatMap Directive.requests ++ back.flatMap Directive.requests := by
  rw [requests, has.split, List.flatMap_append, List.flatMap_append,
    Record.requests_row has.given, List.nil_append]

theorem bitSize_eq (has : format.HasRow front row back) :
    format.bitSize =
      Layout.stop (Layout.stop (Layout.stop 0 front) (row.map .field)) back := by
  rw [bitSize, has.split, Layout.stop_append, Layout.stop_append]

/-- `Format.bind` accepts values exactly when those in front of the row, for it and behind it are
bound. -/
theorem bind_iff (has : format.HasRow front row back)
    (listed : values.Lists (before ++ (between ++ behind)))
    (front_enough : before.length = (Directive.givenFields front).length)
    (enough : between.length = row.length) :
    (format.bind values).outcome = .ok arguments ↔
      ∃ first own rest, arguments = first ++ (own ++ rest) ∧
        Bound (Directive.givenFields front) before first ∧ Bound row between own ∧
        Bound (Directive.givenFields back) behind rest := by
  obtain ⟨several, countable, listable, items⟩ := listed
  rw [bind_outcome_eq_ok_iff, has.givenFields_eq]
  apply Iff.intro
  · intro parts
    obtain ⟨_, _, _, found, same, each⟩ := parts
    obtain rfl := Option.some.inj (items.symm.trans same)
    obtain ⟨first, others, rfl, front_bound, others_bound⟩ := each.of_append front_enough
    obtain ⟨own, rest, rfl, own_bound, back_bound⟩ := others_bound.of_append enough
    exact ⟨first, own, rest, rfl, front_bound, own_bound, back_bound⟩
  · intro parts
    obtain ⟨first, own, rest, rfl, front_bound, own_bound, back_bound⟩ := parts
    exact ⟨several, countable, listable, _, items,
      front_bound.append (own_bound.append back_bound)⟩

/-- `layOut` of a format with a row is the front, the images of the row and the back. -/
theorem layOut_eq (has : format.HasRow front row back)
    (front_bound : Bound (Directive.givenFields front) before arguments)
    (own_bound : Bound row between own) {numbers : List Nat}
    (enough : numbers.length = (front.flatMap Directive.requests).length) (more : List Nat) :
    format.layOut (Record.images format.givenFields (arguments ++ (own ++ rest)))
        (numbers ++ more) =
      Layout.place 0 front
          (Record.bodies front (Record.images (Directive.givenFields front) arguments) numbers)
        ++ (Layout.place (Layout.stop 0 front) (row.map .field) (Record.images row own)
          ++ Layout.place (Layout.stop (Layout.stop 0 front) (row.map .field)) back
            (Record.bodies back (Record.images (Directive.givenFields back) rest) more)) := by
  have alone := Record.givenFields_row has.given
  have directives_valid := has.valid
  rw [has.split] at directives_valid
  obtain ⟨front_valid, others_valid⟩ := List.forall_mem_append.mp directives_valid
  obtain ⟨row_valid, _⟩ := List.forall_mem_append.mp others_valid
  have own_carried := own_bound.carried
  rw [← alone] at own_carried
  have images := Record.length_images row_valid own_carried
  rw [alone] at images
  -- The row draws no numbers, so all numbers that the front leaves are for the directives behind.
  have row_bodies := (Record.bodies_entries_append own_carried
    (congrArg List.length (Record.requests_row has.given)).symm back rest more).1
  rw [alone, Record.bodies_row has.given images.length_eq.symm, List.nil_append] at row_bodies
  have front_fits := Record.fits_bodies (Record.length_images front_valid front_bound.carried)
    (Nat.le_of_eq enough.symm)
  have row_fits : Layout.Fits (row.map .field) (Record.images row own) := by
    have fits := @Record.fits_bodies (row.map .field) (Record.images row own) [] (by rwa [alone])
      (Nat.le_of_eq (congrArg List.length (Record.requests_row has.given)))
    rwa [Record.bodies_row has.given images.length_eq.symm] at fits
  rw [layOut, givenFields, has.split,
    (Record.bodies_entries_append front_bound.carried enough _ (own ++ rest) more).1, row_bodies,
    Layout.place_append front_fits, Layout.place_append row_fits]

/-- Values that are bound with a row are bound with an interchangeable one, and `layOut` is the
same. -/
private theorem exists_bound (has : first.HasRow front row back)
    (also : second.HasRow front other back)
    (interchange : Record.Interchangeable row other between instead)
    (front_enough : before.length = (Directive.givenFields front).length)
    (listed : values.Lists (before ++ (between ++ behind)))
    (others_listed : others.Lists (before ++ (instead ++ behind)))
    (bound : (first.bind values).outcome = .ok arguments) :
    ∃ swapped, (second.bind others).outcome = .ok swapped ∧ ∀ source record,
      (first.pack values source).outcome = .ok record →
        (second.pack others source).outcome = .ok record := by
  obtain ⟨arguments, own, rest, rfl, front_bound, own_bound, back_bound⟩ :=
    (has.bind_iff listed front_enough interchange.enough).mp bound
  obtain ⟨swapped, swapped_bound, places⟩ := interchange.forth own_bound
  have also_bound := (also.bind_iff others_listed front_enough interchange.other_enough).mpr
    ⟨arguments, swapped, rest, rfl, front_bound, swapped_bound, back_bound⟩
  refine ⟨_, also_bound, fun source record packed => ?_⟩
  rw [pack_outcome_eq_ok_iff has.valid bound, has.requests_eq] at packed
  rw [pack_outcome_eq_ok_iff also.valid also_bound, also.requests_eq]
  obtain ⟨numbers, answered, fits, rfl⟩ := packed
  refine ⟨numbers, answered, fits, ?_⟩
  obtain ⟨numbers, more, rfl, enough, _⟩ :=
    Record.exists_append_of_length (RandomSource.length_of_answers answered)
  rw [has.layOut_eq front_bound own_bound enough, also.layOut_eq front_bound swapped_bound enough,
    places, interchange.stops]

/-- `Format.bind` succeeds with a row exactly when it does with an interchangeable one. -/
theorem accepts_iff (has : first.HasRow front row back) (also : second.HasRow front other back)
    (interchange : Record.Interchangeable row other between instead)
    (front_enough : before.length = (Directive.givenFields front).length)
    (listed : values.Lists (before ++ (between ++ behind)))
    (others_listed : others.Lists (before ++ (instead ++ behind))) :
    (∃ arguments, (first.bind values).outcome = .ok arguments) ↔
      ∃ arguments, (second.bind others).outcome = .ok arguments := by
  apply Iff.intro
  · intro accepted
    obtain ⟨arguments, bound⟩ := accepted
    obtain ⟨swapped, swapped_bound, _⟩ :=
      has.exists_bound also interchange front_enough listed others_listed bound
    exact ⟨swapped, swapped_bound⟩
  · intro accepted
    obtain ⟨arguments, bound⟩ := accepted
    obtain ⟨swapped, swapped_bound, _⟩ :=
      also.exists_bound has interchange.symm front_enough others_listed listed bound
    exact ⟨swapped, swapped_bound⟩

/-- `pack` gives the same records with a row as with an interchangeable one. -/
theorem pack_iff (has : first.HasRow front row back) (also : second.HasRow front other back)
    (interchange : Record.Interchangeable row other between instead)
    (front_enough : before.length = (Directive.givenFields front).length)
    (listed : values.Lists (before ++ (between ++ behind)))
    (others_listed : others.Lists (before ++ (instead ++ behind))) {record : Bytes} :
    (first.pack values source).outcome = .ok record ↔
      (second.pack others source).outcome = .ok record := by
  apply Iff.intro
  · intro packed
    obtain ⟨arguments, _, bound, _⟩ := exists_of_pack has.valid packed
    obtain ⟨_, _, same⟩ :=
      has.exists_bound also interchange front_enough listed others_listed bound
    exact same source record packed
  · intro packed
    obtain ⟨arguments, _, bound, _⟩ := exists_of_pack also.valid packed
    obtain ⟨_, _, same⟩ :=
      also.exists_bound has interchange.symm front_enough others_listed listed bound
    exact same source record packed

/-- `unpack` of a format with a row gives the payloads in front of the row, its contents, and the
payloads behind it. With any other row that ends in the same place it gives the same in front and
behind. -/
theorem exists_reading (has : format.HasRow front row back) {buffer length : Value}
    {payloads : List Payload} (unpacked : (format.unpack buffer length).outcome = .ok payloads) :
    ∃ record before behind,
      before.length = (Directive.givenFields front).length ∧
      Layout.stop (Layout.stop 0 front) (row.map .field) ≤ (Bits.ofBytes record).length ∧
      payloads = before ++ (Record.contents (row.map .field)
        (Layout.slices (Bits.ofBytes record) (Layout.stop 0 front) (row.map .field)) ++ behind) ∧
      ∀ {second : Format} {other : List Field}, second.HasRow front other back →
        (∀ cursor,
          Layout.stop cursor (row.map .field) = Layout.stop cursor (other.map .field)) →
        (second.unpack buffer length).outcome = .ok (before ++ (Record.contents (other.map .field)
          (Layout.slices (Bits.ofBytes record) (Layout.stop 0 front) (other.map .field))
            ++ behind)) := by
  obtain ⟨record, readable, enough, agrees, rfl⟩ := (unpack_outcome_eq_ok_iff has.valid).mp unpacked
  let bits := Bits.ofBytes record
  have directives_valid := has.valid
  rw [slices, has.split, Directive.agrees_append_iff, Directive.agrees_append_iff] at agrees
  obtain ⟨front_agrees, _, back_agrees⟩ := agrees
  have reached : Layout.stop (Layout.stop 0 front) (row.map .field) ≤ bits.length := by
    have total := size_le_iff.mp enough
    rw [has.bitSize_eq] at total
    rw [Bits.length_ofBytes]
    exact Nat.le_trans (Layout.le_stop _ back) total
  have front_reached : Layout.stop 0 front ≤ bits.length :=
    Nat.le_trans (Layout.le_stop _ _) reached
  rw [has.split] at directives_valid
  have front_carried := Record.carries_contents (List.forall_mem_append.mp directives_valid).1
    (Layout.fits_slices front_reached)
  refine ⟨record, Record.contents front (Layout.slices bits 0 front),
    Record.contents back (Layout.slices bits
      (Layout.stop (Layout.stop 0 front) (row.map .field)) back),
    front_carried.length_eq.symm, reached, ?_, fun {second other} also stops => ?_⟩
  · rw [slices, has.split, Record.contents_slices_append, Record.contents_slices_append]
  · rw [unpack_outcome_eq_ok_iff also.valid]
    refine ⟨record, readable, ?_, ?_, ?_⟩
    · rwa [size, also.bitSize_eq, ← stops, ← has.bitSize_eq, ← size]
    · rw [slices, also.split, Directive.agrees_append_iff, Directive.agrees_append_iff, ← stops]
      exact ⟨front_agrees, Record.agrees_row other _ _, back_agrees⟩
    · rw [slices, also.split, Record.contents_slices_append, Record.contents_slices_append, ← stops]

/-- `unpack` succeeds with a row exactly when it does with one that ends in the same place. -/
theorem unpack_succeeds_iff (has : first.HasRow front row back)
    (also : second.HasRow front other back)
    (stops : ∀ cursor, Layout.stop cursor (row.map .field) = Layout.stop cursor (other.map .field))
    (buffer length : Value) :
    (∃ payloads, (first.unpack buffer length).outcome = .ok payloads) ↔
      ∃ payloads, (second.unpack buffer length).outcome = .ok payloads := by
  apply Iff.intro
  · intro success
    obtain ⟨payloads, unpacked⟩ := success
    obtain ⟨_, _, _, _, _, _, read⟩ := has.exists_reading unpacked
    exact ⟨_, read also stops⟩
  · intro success
    obtain ⟨payloads, unpacked⟩ := success
    obtain ⟨_, _, _, _, _, _, read⟩ := also.exists_reading unpacked
    exact ⟨_, read has fun cursor => (stops cursor).symm⟩

/-- The quantities of a row are below `DigitLimit.bound`. -/
theorem count_lt {given : Value} (compiled : (compile given).outcome = .ok format)
    (has : format.HasRow front row back) {field : Field} (member : field ∈ row) :
    field.count < DigitLimit.bound := by
  apply (printable_of_compile compiled).readable
  rw [has.split]
  exact List.mem_append_right _ (List.mem_append_left _ (List.mem_map_of_mem member))

/-- Any other row of valid fields, with quantities below `DigitLimit.bound`, can replace a row: the
directives with it have a text that `compile` accepts. -/
theorem exists_replaced {given : Value} (compiled : (compile given).outcome = .ok format)
    (has : format.HasRow front row back) (some_field : row ≠ [])
    (other_given : ∀ field ∈ other, field.takesValue = true) (other_field : other ≠ [])
    (valid : ∀ field ∈ other, field.Valid ∧ field.count < DigitLimit.bound) :
    ∃ text replaced, (compile (.text text)).outcome = .ok replaced ∧
      replaced.directives = front ++ (other.map .field ++ back) := by
  have printable := printable_of_compile compiled
  rw [has.split] at printable
  obtain ⟨replaced, written, same⟩ :=
    (printable.replace has.given some_field other_given other_field valid).exists_format
  exact ⟨_, replaced, written, same⟩

end HasRow

end Format

end BitRecord
