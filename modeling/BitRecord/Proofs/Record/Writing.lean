/-
# Writing a record

`Format.write` puts a body for each directive into its place: the bytes of a
literal, the image of a fill, or the image of the payload for the field. This
holds from any position of the writer, so it is one induction over the
directives, and the position is the cursor of the layout at every step.
-/

import BitRecord.Proofs.Record.Turn

namespace BitRecord

namespace Record

/-- The bits in the place of each directive, with `images` used up by the fields that take a value
and `numbers` by the random fills. -/
def bodies : List Directive → (images : List Bits) → (numbers : List Nat) → List Bits
  | [], _, _ => []
  | .literal data :: directives, images, numbers =>
      Bits.ofBytes data :: bodies directives images numbers
  | .field field :: directives, images, numbers =>
      match field.fill with
      | some mode =>
          field.fillImage mode numbers
            :: bodies directives images (numbers.drop field.requests.length)
      | none => images.headD [] :: bodies directives images.tail numbers

/-- The image of each payload in its field. -/
def images (fields : List Field) (arguments : List Argument) : List Bits :=
  List.zipWith (fun field argument => field.image argument.payload) fields arguments

theorem images_cons (field : Field) (fields : List Field) (argument : Argument)
    (arguments : List Argument) :
    images (field :: fields) (argument :: arguments) =
      field.image argument.payload :: images fields arguments := rfl

theorem bodies_filled {field : Field} {mode : Fill} (filled : field.fill = some mode)
    (directives : List Directive) (images : List Bits) (numbers : List Nat) :
    bodies (.field field :: directives) images numbers =
      field.fillImage mode numbers
        :: bodies directives images (numbers.drop field.requests.length) := by
  rw [bodies, filled]

theorem bodies_given {field : Field} (given : field.fill = none) (directives : List Directive)
    (image : Bits) (images : List Bits) (numbers : List Nat) :
    bodies (.field field :: directives) (image :: images) numbers =
      image :: bodies directives images numbers := by
  rw [bodies, given]
  rfl

variable {source : RandomSource} {directives : List Directive} {items : List Item}
  {arguments : List Argument} {emission : Emission} {numbers : List Nat}

/-- `bodies` of a list is the body of its first directive and the bodies of the others. -/
theorem bodies_cons {directive : Directive} (found : directive.Finds Field.Carries arguments)
    {front : List Nat} (enough : front.length = directive.requests.length) (back : List Nat) :
    bodies (directive :: directives)
        (images (Directive.givenFields (directive :: directives)) arguments) (front ++ back) =
      directive.body arguments front :: bodies directives
        (images (Directive.givenFields directives) (directive.rest arguments)) back := by
  cases directive with
  | literal data =>
      obtain rfl : front = [] := List.eq_nil_of_length_eq_zero enough
      rfl
  | field field =>
      unfold Directive.body Directive.rest
      dsimp only
      cases fill : field.fill with
      | some mode =>
          have filled := Field.takesValue_of_fill fill
          have later : (front ++ back).drop field.requests.length = back := List.drop_left' enough
          rw [Directive.givenFields_filled filled, bodies_filled fill, later,
            Field.fillImage_append enough]
          simp only [Directive.takesValue, filled]
          rfl
      | none =>
          have given := Field.takesValue_iff.mpr fill
          obtain ⟨argument, others, rfl, _⟩ := found fill
          obtain rfl : front = [] := by
            rw [Directive.requests, Field.requests_of_given fill] at enough
            exact List.eq_nil_of_length_eq_zero enough
          rw [Directive.givenFields_given given, images_cons, bodies_given fill]
          simp only [Directive.takesValue, given]
          rfl

/-- Numbers as many as two lists have elements split into one part for each list. -/
theorem exists_append_of_length {numbers : List Nat} {first second : List Nat}
    (enough : numbers.length = (first ++ second).length) :
    ∃ front back, numbers = front ++ back ∧ front.length = first.length ∧
      back.length = second.length := by
  rw [List.length_append] at enough
  refine ⟨_, _, (List.take_append_drop first.length numbers).symm, ?_, ?_⟩
  · rw [List.length_take]
    omega
  · rw [List.length_drop]
    omega

/-- The integers that `writeThrough` writes, each with the width it is written in. -/
def entries : List Directive → List Argument → (numbers : List Nat) → List Entry
  | [], _, _ => []
  | directive :: directives, arguments, numbers =>
      directive.entries arguments numbers ++ entries directives (directive.rest arguments)
        (numbers.drop directive.requests.length)

theorem entries_cons {directive : Directive} {front : List Nat}
    (enough : front.length = directive.requests.length) (back : List Nat) :
    entries (directive :: directives) arguments (front ++ back) =
      directive.entries arguments front
        ++ entries directives (directive.rest arguments) back := by
  rw [entries, Directive.entries_append enough, List.drop_left' enough]

/-- For arguments that their fields carry, all entries fit exactly when the numbers drawn fit their
requests. -/
theorem entries_fit_iff (valid : ∀ directive ∈ directives, directive.Valid)
    (carried : List.Forall₂ (fun field argument => field.Carries argument.payload)
      (Directive.givenFields directives) arguments)
    (enough : numbers.length = (directives.flatMap Directive.requests).length) :
    (∀ entry ∈ entries directives arguments numbers, entry.Fits) ↔
      ∀ entry ∈ List.zipWith Entry.mk (directives.flatMap Directive.requests) numbers,
        entry.Fits := by
  induction directives generalizing arguments numbers with
  | nil => exact Iff.rfl
  | cons directive directives ih =>
      obtain ⟨first_valid, others_valid⟩ := List.forall_mem_cons.mp valid
      obtain ⟨first, others⟩ := Directive.finds_of_forall₂ carried
      rw [List.flatMap_cons] at enough ⊢
      obtain ⟨front, back, rfl, own, left⟩ := exists_append_of_length enough
      rw [List.zipWith_append own.symm, entries_cons own, List.forall_mem_append,
        List.forall_mem_append, Directive.entries_fit_iff first_valid first,
        ih others_valid others left]

/-- Every request of valid directives is for at least one bit. -/
theorem requests_pos (valid : ∀ directive ∈ directives, directive.Valid) :
    ∀ width ∈ directives.flatMap Directive.requests, 0 < width := by
  intro width member
  obtain ⟨directive, listed, own⟩ := List.mem_flatMap.mp member
  exact Directive.requests_pos (valid directive listed) width own

/-- All entries fit when the fields carry their arguments and the source is in range. -/
theorem entries_fit (in_range : source.InRange)
    (valid : ∀ directive ∈ directives, directive.Valid)
    (carried : List.Forall₂ (fun field argument => field.Carries argument.payload)
      (Directive.givenFields directives) arguments) {asked : Array Nat}
    (answered : source.answers asked (directives.flatMap Directive.requests) = .ok numbers) :
    ∀ entry ∈ entries directives arguments numbers, entry.Fits :=
  (entries_fit_iff valid carried (RandomSource.length_of_answers answered)).mpr
    (in_range.fits (requests_pos valid) answered)

/-- The loop of `Format.write`, with the arguments left over as a second result. -/
def writeThrough (source : RandomSource) :
    List Item → List Argument → Emission → Traced (Emission × List Argument)
  | [], arguments, emission => .pure (emission, arguments)
  | item :: items, arguments, emission => do
      let (emission, arguments) ← writeItem source item arguments emission
      writeThrough source items arguments emission

/-- `write` is `writeThrough` without the arguments left over. -/
theorem write_eq_map (items : List Item) (arguments : List Argument) (emission : Emission) :
    write source items arguments emission =
      Prod.fst <$> writeThrough source items arguments emission := by
  induction items generalizing arguments emission with
  | nil => rfl
  | cons item items ih => simp [write, writeThrough, writeItem, ih]

/-- The events of `writeThrough` for items from `cursor` on. -/
def writingEvents : (cursor : Nat) → List Item → List Argument → List Event
  | _, [], _ => []
  | cursor, item :: items, arguments =>
      packingEvent (item, cursor) :: item.directive.encodingEvents arguments
        ++ writingEvents (item.directive.stop cursor) items (item.directive.rest arguments)

/-- `lead` and a body, extended by the places of the other bodies, is the extension by the places of
all bodies. -/
private theorem extend_place (directive : Directive) (body : Bits) (directives : List Directive)
    (bodies : List Bits) (emission : Emission) (widths others : List Nat) :
    ((lead directive emission).extend body widths).extend
        (Layout.place (directive.stop emission.writer.position) directives bodies) others =
      emission.extend
        (Layout.place emission.writer.position (directive :: directives) (body :: bodies))
        (widths ++ others) := by
  rw [Layout.place]
  simp [lead]

/-- `writeThrough` succeeds when all directives are valid, the fields carry their arguments, the
source answers and all entries fit; it adds the bodies in their places and uses up the arguments. -/
theorem writeThrough_eq (valid : ∀ item ∈ items, item.directive.Valid)
    (carried : List.Forall₂ (fun field argument => field.Carries argument.payload)
      (Directive.givenFields (items.map Item.directive)) arguments)
    (answered : source.answers emission.asked
      ((items.map Item.directive).flatMap Directive.requests) = .ok numbers)
    (fits : ∀ entry ∈ entries (items.map Item.directive) arguments numbers, entry.Fits) :
    writeThrough source items arguments emission =
      ⟨writingEvents emission.writer.position items arguments,
        .ok (emission.extend
          (Layout.place emission.writer.position (items.map Item.directive)
            (bodies (items.map Item.directive)
              (images (Directive.givenFields (items.map Item.directive)) arguments) numbers))
          ((items.map Item.directive).flatMap Directive.requests), [])⟩ := by
  induction items generalizing arguments emission numbers with
  | nil =>
      obtain rfl : arguments = [] := List.forall₂_nil_left_iff.mp carried
      simp [writeThrough, writingEvents, Layout.place, Traced.pure]
  | cons item items ih =>
      rw [List.map_cons] at carried answered fits ⊢
      obtain ⟨first_valid, others_valid⟩ := List.forall_mem_cons.mp valid
      obtain ⟨first, others⟩ := Directive.finds_of_forall₂ carried
      rw [List.flatMap_cons] at answered ⊢
      obtain ⟨front, back, front_answered, back_answered, rfl⟩ :=
        RandomSource.answers_append_eq_ok_iff.mp answered
      have enough := RandomSource.length_of_answers front_answered
      rw [entries_cons enough, List.forall_mem_append] at fits
      obtain ⟨first_fits, others_fit⟩ := fits
      have length := Directive.length_body first_valid first (Nat.le_of_eq enough.symm)
      -- The others are written from where the first body ends, which is where the layout goes on.
      have later := @ih (item.directive.rest arguments)
        ((lead item.directive emission).extend (item.directive.body arguments front)
          item.directive.requests) back others_valid others
        (by simpa [lead, Emission.extend] using back_answered) others_fit
      rw [position_extend_lead length, extend_place] at later
      rw [writeThrough, writeItem_eq first_valid first front_answered first_fits, Traced.ok_bind]
      dsimp only
      rw [later, bodies_cons first enough]
      rfl

/-- `bodies` fit their directives when the images fit their fields and there are enough numbers. -/
theorem fits_bodies {directives : List Directive} {images : List Bits} {numbers : List Nat}
    (fitting : List.Forall₂ (fun field image => image.length = field.bitSize)
      (Directive.givenFields directives) images)
    (enough : (directives.flatMap Directive.requests).length ≤ numbers.length) :
    Layout.Fits directives (bodies directives images numbers) := by
  induction directives generalizing images numbers with
  | nil => exact .nil
  | cons directive directives ih =>
      cases directive with
      | literal data => exact .cons (Bits.length_ofBytes data) (ih fitting enough)
      | field field =>
          rw [List.flatMap_cons, List.length_append] at enough
          cases fill : field.fill with
          | some mode =>
              rw [Directive.givenFields_filled (Field.takesValue_of_fill fill)] at fitting
              have own : field.requests.length ≤ numbers.length :=
                Nat.le_trans (Nat.le_add_right _ _) enough
              rw [bodies_filled fill]
              refine .cons (Field.length_fillImage fill own) (ih fitting ?_)
              rw [List.length_drop]
              exact Nat.le_sub_of_add_le' enough
          | none =>
              rw [Directive.givenFields_given (Field.takesValue_iff.mpr fill)] at fitting
              cases fitting with
              | cons first others =>
                  rw [bodies_given fill]
                  exact .cons first (ih others (Nat.le_trans (Nat.le_add_left _ _) enough))

end Record

/-- The bits of a value in a field: the image of its normal form. -/
def Field.encoding (field : Field) (value : Value) : Bits :=
  ((field.normalForm? value).map field.image).getD []

/-- A payload and its `fitted` form have one image. -/
theorem Field.image_fitted (field : Field) (payload : Payload) :
    field.image (payload.fitted field.count) = field.image payload := by
  cases payload with
  | integer | integers => rfl
  | bytes data =>
      rw [Payload.fitted, image, image, Bytes.fit_of_length (Bytes.length_fit field.count data)]

/-- The encodings of bound values are the images of their payloads. -/
theorem Bound.encodings {fields : List Field} {values : List Value} {arguments : List Argument}
    (bound : Bound fields values arguments) :
    List.zipWith Field.encoding fields values = Record.images fields arguments := by
  induction bound with
  | nil => rfl
  | cons first _ ih =>
      rw [List.zipWith_cons_cons, Record.images_cons, ih, Field.encoding,
        (Field.bind_eq_ok first).2, Option.map_some, Option.getD_some, Field.image_fitted]

namespace Record

variable {directives : List Directive} {arguments : List Argument}

/-- Each image has the `bitSize` of its field. -/
theorem length_images (valid : ∀ directive ∈ directives, directive.Valid)
    (carried : List.Forall₂ (fun field argument => field.Carries argument.payload)
      (Directive.givenFields directives) arguments) :
    List.Forall₂ (fun field image => image.length = field.bitSize)
      (Directive.givenFields directives) (images (Directive.givenFields directives) arguments) := by
  have fields_valid : ∀ field ∈ Directive.givenFields directives,
      field.Valid ∧ field.takesValue = true := by
    intro field member
    obtain ⟨listed, given⟩ := Directive.mem_givenFields_iff.mp member
    exact ⟨valid _ listed, given⟩
  generalize Directive.givenFields directives = fields at carried fields_valid ⊢
  induction carried with
  | nil => exact .nil
  | cons first _ ih =>
      obtain ⟨first_valid, given⟩ := fields_valid _ List.mem_cons_self
      exact .cons (Field.length_image first_valid given first)
        (ih fun field member => fields_valid field (List.mem_cons_of_mem _ member))

end Record

namespace Format

variable {given values : Value} {source : RandomSource} {format : Format} {items : List Value}
  {arguments : List Argument} {numbers : List Nat}

/-- `pack` on a text that `compile` accepts is `Format.pack` on the result. -/
theorem pack_of_compile (compiled : (compile given).outcome = .ok format) (values : Value)
    (source : RandomSource) :
    (BitRecord.pack given values source).outcome = (format.pack values source).outcome :=
  Traced.outcome_bind_of_ok compiled _

/-- `unpack` on a text that `compile` accepts is `Format.unpack` on the result. -/
theorem unpack_of_compile (compiled : (compile given).outcome = .ok format)
    (buffer length : Value) :
    (BitRecord.unpack given buffer length).outcome = (format.unpack buffer length).outcome :=
  Traced.outcome_bind_of_ok compiled _

/-- The bits of a record: `place` on the `bodies` of the directives. -/
def layOut (format : Format) (images : List Bits) (numbers : List Nat) : Bits :=
  Layout.place 0 format.directives (Record.bodies format.directives images numbers)

/-- `layOut` has as many bits as the format. -/
theorem length_layOut (valid : ∀ directive ∈ format.directives, directive.Valid)
    (bound : Bound format.givenFields items arguments)
    (answered : source.answers #[] format.requests = .ok numbers) :
    (format.layOut (Record.images format.givenFields arguments) numbers).length =
      format.bitSize := by
  have fits := Record.fits_bodies (Record.length_images valid bound.carried)
    (Nat.le_of_eq (RandomSource.length_of_answers answered).symm)
  have length := Layout.length_place fits 0
  rwa [Nat.zero_add] at length

/-- `pack` on bound values is `writeThrough` over all items when the source answers and all entries
fit. -/
theorem pack_eq (valid : ∀ directive ∈ format.directives, directive.Valid)
    (bound : (format.bind values).outcome = .ok arguments)
    (answered : source.answers #[] format.requests = .ok numbers)
    (fits : ∀ entry ∈ Record.entries format.directives arguments numbers, entry.Fits) :
    format.pack values source =
      ⟨(format.bind values).events ++ (Record.writingEvents 0 format.items arguments
          ++ [.packed format.bitSize format.size]),
        .ok (format.layOut (Record.images format.givenFields arguments) numbers).toBytes⟩ := by
  obtain ⟨_, _, _, items, _, each⟩ := bind_outcome_eq_ok_iff.mp bound
  have written := @Record.writeThrough_eq source format.items _ .empty numbers (valid_items valid)
    each.carried answered fits
  let record := format.layOut (Record.images format.givenFields arguments) numbers
  have length : record.length = format.bitSize := length_layOut valid each answered
  let writer := (Emission.empty.extend record format.requests).writer
  have finished : writer.bits = record := by
    simp [writer, Emission.extend, Emission.empty]
  have position : writer.position = format.bitSize := by
    rw [← Writer.length_bits, finished, length]
  have complete : writer.bytes = record.toBytes := by rw [Writer.bytes, finished]
  have size : record.toBytes.length = format.size := by
    rw [Bits.length_toBytes, length, Format.size]
  rw [pack, Traced.eq_of_outcome bound, Traced.ok_bind, Record.write_eq_map, written, Traced.map_eq]
  change (⟨_ ++ (_ ++ [.packed writer.position writer.bytes.length]), .ok writer.bytes⟩ :
    Traced Bytes) = _
  rw [position, complete, size]
  rfl

/-- A source in range answers all requests of a format, and all entries of bound values fit. -/
theorem exists_answers_fit (in_range : source.InRange)
    (valid : ∀ directive ∈ format.directives, directive.Valid)
    (bound : (format.bind values).outcome = .ok arguments) :
    ∃ numbers, source.answers #[] format.requests = .ok numbers ∧
      ∀ entry ∈ Record.entries format.directives arguments numbers, entry.Fits := by
  obtain ⟨_, _, _, items, _, each⟩ := bind_outcome_eq_ok_iff.mp bound
  obtain ⟨numbers, answered⟩ := in_range.exists_answers #[] format.requests
  exact ⟨numbers, answered, Record.entries_fit in_range valid each.carried answered⟩

/-- `pack` ends with the `packed` event of the size in bits, and its bytes are `layOut` completed
with zeros. -/
theorem pack_through (compiled : (compile given).outcome = .ok format)
    (bound : (format.bind values).outcome = .ok arguments)
    (answered : source.answers #[] format.requests = .ok numbers)
    (fits : ∀ entry ∈ Record.entries format.directives arguments numbers, entry.Fits) :
    ∃ final record,
      (Record.writeThrough source format.items arguments .empty).outcome = .ok (final, []) ∧
      final.writer.position = format.bitSize ∧
      (BitRecord.pack given values source).outcome = .ok record ∧ record = final.writer.bytes ∧
      record.length = format.size ∧
      (Bits.ofBytes record).drop format.bitSize =
        List.replicate (toBoundary format.bitSize) false := by
  have valid := valid_of_compile compiled
  obtain ⟨_, _, _, _, _, each⟩ := bind_outcome_eq_ok_iff.mp bound
  have written := @Record.writeThrough_eq source format.items _ .empty numbers (valid_items valid)
    each.carried answered fits
  let bits := format.layOut (Record.images format.givenFields arguments) numbers
  have length : bits.length = format.bitSize := length_layOut valid each answered
  refine ⟨Emission.empty.extend bits format.requests, bits.toBytes,
    congrArg Traced.outcome written, ?_, ?_, ?_, ?_, ?_⟩
  · rw [Emission.position_extend, length]
    exact Nat.zero_add _
  · rw [BitRecord.pack, Traced.outcome_bind_of_ok compiled, pack_eq valid bound answered fits]
  · simp [Emission.extend, Emission.empty, Writer.bytes]
  · rw [Bits.length_toBytes, length, size]
  · rw [Bits.ofBytes_toBytes, Bits.completed, ← length, List.drop_left]

/-- `pack` succeeds on values that `bind` accepts when the source is in range. -/
theorem pack_outcome (in_range : source.InRange)
    (valid : ∀ directive ∈ format.directives, directive.Valid)
    (bound : (format.bind values).outcome = .ok arguments)
    (answered : source.answers #[] format.requests = .ok numbers) :
    (format.pack values source).outcome =
      .ok (format.layOut (Record.images format.givenFields arguments) numbers).toBytes := by
  obtain ⟨_, _, _, items, _, each⟩ := bind_outcome_eq_ok_iff.mp bound
  rw [pack_eq valid bound answered (Record.entries_fit in_range valid each.carried answered)]

/-- The result of `pack` is the encodings of the values, the bytes of the literals and the fills in
the places of their directives, completed to whole bytes. -/
theorem pack_eq_layOut (compiled : (compile given).outcome = .ok format)
    (bound : (format.bind values).outcome = .ok arguments) (in_range : source.InRange) :
    ∃ items numbers record,
      values.items? = some items ∧ items.length = format.arity ∧
      source.answers #[] format.requests = .ok numbers ∧
      (BitRecord.pack given values source).outcome = .ok record ∧
      record =
        (format.layOut (List.zipWith Field.encoding format.givenFields items) numbers).toBytes ∧
      record.length = format.size := by
  have valid := valid_of_compile compiled
  obtain ⟨_, _, _, items, listed, each⟩ := bind_outcome_eq_ok_iff.mp bound
  obtain ⟨numbers, answered⟩ := in_range.exists_answers #[] format.requests
  have packed := pack_outcome in_range valid bound answered
  refine ⟨items, numbers, _, listed, each.length_eq.trans format.arity_eq.symm, answered,
    (Traced.outcome_bind_of_ok compiled _).trans packed, ?_, ?_⟩
  · rw [each.encodings]
  · rw [Bits.length_toBytes, length_layOut valid each answered, size]

/-- A format with a literal between a bit run and a random bit, so that what follows is not on
byte boundaries. -/
def mixed : Format where
  given := .text "%3liA%ri%p2y%2s"
  items := [⟨0, .field ⟨.bit, 3, .little, false, none, .scalar⟩⟩, ⟨4, .literal [65]⟩,
    ⟨5, .field ⟨.bit, 1, .native, false, some .random, .scalar⟩⟩,
    ⟨8, .field ⟨.byte, 2, .native, false, none, .array⟩⟩,
    ⟨12, .field ⟨.string, 2, .native, false, none, .scalar⟩⟩]

theorem compile_mixed : (compile mixed.given).outcome = .ok mixed :=
  @compile_of_piecesWithin "%3liA%ri%p2y%2s" 15 mixed.items (by decide) (by decide +kernel)

/-- Values for the fields of the mixed format. -/
def mixedValues : Value :=
  .list [.integer 160, .list [.integer 1, .integer (-1)], .buffer .bytes [7]]

theorem bind_mixedValues : (mixed.bind mixedValues).outcome =
    .ok [⟨.bit, .integer 160⟩, ⟨.byte, .integers [1, 255]⟩, ⟨.string, .bytes [7]⟩] := rfl

/-- The bytes of `mixed` for `mixedValues`: the top bits of the run in the first byte, and
everything behind the random bit off the byte boundaries. -/
theorem pack_eq_layOut_mixed :
    (BitRecord.pack mixed.given mixedValues (.cyclic #[1])).outcome =
      .ok [160, 65, 128, 255, 131, 128, 0] := by
  obtain ⟨items, numbers, record, listed, _, answered, packed, laid_out, _⟩ :=
    pack_eq_layOut compile_mixed bind_mixedValues
      (RandomSource.inRange_cyclic (show 0 < (#[1] : Array Int).size by decide))
  obtain rfl := Option.some.inj listed
  obtain rfl : [1] = numbers := Except.ok.inj answered
  rw [packed, laid_out]
  decide

end Format

end BitRecord
