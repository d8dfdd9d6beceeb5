/-
# An array and its elements

An array of bits, bytes or words stands for the same records as its elements,
each written as a scalar of its own: only the first one has the alignment of the
array, the order of words is that of the array, and bits of an array follow each
other in either order. `bind` accepts the elements for the scalars exactly when
it accepts the sequence for the array, unless that is a range too long for `len`.
`pack` gives the same bytes for both, and `unpack` gives one by one for the
scalars what it gives as a list for the array.
-/

import BitRecord.Proofs.Argument.Acceptance
import BitRecord.Proofs.Record.Replacement

namespace BitRecord

namespace Field

/-- The scalar for one element of an array. Single bits have the native order. -/
def element (field : Field) (aligned : Bool) : Field where
  kind := field.kind
  count := 1
  order := if field.kind = .bit then .native else field.order
  aligned := aligned
  fill := none
  shape := .scalar

/-- The scalars for the elements of an array, of which only the first one keeps its alignment. -/
def elements (field : Field) : List Field :=
  field.element field.aligned :: List.replicate (field.count - 1) (field.element false)

variable {field : Field} {aligned : Bool}

/-- No array is a string. -/
theorem Valid.ne_string_of_array (valid : field.Valid) (array : field.shape = .array) :
    field.kind ≠ .string := by
  intro string
  have scalar := (valid.string_given string).2
  rw [array] at scalar
  contradiction

theorem exists_of_mem_elements {scalar : Field} (member : scalar ∈ field.elements) :
    ∃ aligned, scalar = field.element aligned := by
  rcases List.mem_cons.mp member with rfl | later
  · exact ⟨_, rfl⟩
  · exact ⟨false, List.eq_of_mem_replicate later⟩

theorem length_elements (valid : field.Valid) : field.elements.length = field.count := by
  have positive := valid.count_pos
  rw [elements, List.length_cons, List.length_replicate]
  omega

theorem takesValue_elements : ∀ scalar ∈ field.elements, scalar.takesValue = true := by
  intro scalar member
  obtain ⟨aligned, rfl⟩ := exists_of_mem_elements member
  rfl

theorem element_valid (integer : field.kind ≠ .string) (aligned : Bool) :
    (field.element aligned).Valid where
  count_pos := Nat.one_pos
  string_given string := absurd string integer
  array_given _ := rfl
  several count := absurd count (Nat.lt_irrefl 1)

theorem elements_valid (integer : field.kind ≠ .string) :
    ∀ scalar ∈ field.elements, scalar.Valid ∧ scalar.count < DigitLimit.bound := by
  intro scalar member
  obtain ⟨aligned, rfl⟩ := exists_of_mem_elements member
  exact ⟨element_valid integer aligned, DigitLimit.one_lt_bound⟩

theorem bitSize_element (field : Field) (aligned : Bool) :
    (field.element aligned).bitSize = field.width :=
  Nat.mul_one _

theorem order_element_of_bit (bit : field.kind = .bit) : (field.element aligned).order = .native :=
  if_pos bit

theorem order_element_of_ne_bit (wide : field.kind ≠ .bit) :
    (field.element aligned).order = field.order :=
  if_neg wide

/-- An element of a bit array is not little-endian, so it has no justification. -/
theorem order_element_ne_little (bit : field.kind = .bit) :
    (field.element aligned).order ≠ .little := by
  rw [order_element_of_bit bit]
  decide

theorem scalarWidth_element (field : Field) (aligned : Bool) :
    (field.element aligned).scalarWidth = field.width := by
  by_cases bit : field.kind = .bit
  · rw [scalarWidth_of_bit (show (field.element aligned).kind = .bit from bit),
      if_neg (order_element_ne_little bit), width_of_bit bit]
    rfl
  · exact scalarWidth_of_ne_bit (show (field.element aligned).kind ≠ .bit from bit)

/-- An element carries an integer below two to the width. -/
theorem carries_element (integer : field.kind ≠ .string) (aligned : Bool) {value : Nat}
    (small : value < 2 ^ field.width) : (field.element aligned).Carries (.integer value) := by
  rw [← scalarWidth_element field aligned] at small
  exact .scalar integer rfl small fun bit little => absurd little (order_element_ne_little bit)

/-- `List.zipWith` with elements that a step does not distinguish is `List.map`. -/
private theorem zipWith_elements {α β : Type} (valid : field.Valid) (step : Field → α → β)
    (same : ∀ aligned, step (field.element aligned) = step (field.element false)) {items : List α}
    (enough : items.length = field.count) :
    List.zipWith step field.elements items = items.map (step (field.element false)) := by
  have positive := valid.count_pos
  cases items with
  | nil => exact absurd enough (Nat.ne_of_lt positive)
  | cons item items =>
      have left : field.count - 1 = items.length := by
        rw [← enough, List.length_cons]
        omega
      rw [elements, left, List.zipWith_cons_cons, same, List.map_cons]
      congr 1
      clear enough left
      induction items with
      | nil => rfl
      | cons item items ih =>
          rw [List.length_cons, List.replicate_succ, List.zipWith_cons_cons, ih, List.map_cons]

/-! ## Binding -/

/-- `Field.bind` of an element gives the low bits of an integer in range. -/
theorem bind_element_iff (integer : field.kind ≠ .string) {value : Value} {payload : Payload} :
    (field.element aligned).bind value = .ok payload ↔
      ∃ number : Int, value = .integer number ∧ InWidth field.width number ∧
        payload = .integer (lowBits number field.width) := by
  rw [(bind_iff (element_valid integer aligned) value).1 payload]
  apply Iff.intro
  · intro accepted
    cases accepted with
    | string string => exact absurd string integer
    | array _ array => contradiction
    | @scalar number _ _ inside _ =>
        rw [scalarWidth_element] at inside ⊢
        exact ⟨number, rfl, inside, rfl⟩
  · intro parts
    obtain ⟨number, rfl, inside, rfl⟩ := parts
    rw [← scalarWidth_element field aligned] at inside ⊢
    exact .scalar integer rfl inside fun bit little => absurd little (order_element_ne_little bit)

/-- `Field.bind` of an array gives the low bits of a sequence of as many integers in range. -/
theorem bind_array_iff (valid : field.Valid) (array : field.shape = .array) {value : Value}
    {items : List Value} (sequence : value.elements? = some items) {payload : Payload} :
    field.bind value = .ok payload ↔
      value.hasItemsBelow Value.countBound = true ∧
        ∃ numbers : List Int, items = numbers.map .integer ∧ numbers.length = field.count ∧
          (∀ number ∈ numbers, InWidth field.width number) ∧
          payload = .integers (numbers.map fun number => lowBits number field.width) := by
  have integer := valid.ne_string_of_array array
  rw [(bind_iff valid value).1 payload]
  apply Iff.intro
  · intro accepted
    cases accepted with
    | string string => exact absurd string integer
    | scalar _ scalar =>
        rw [array] at scalar
        contradiction
    | @array _ numbers _ _ same countable length inside =>
        obtain rfl := Option.some.inj (sequence.symm.trans same)
        exact ⟨countable, numbers, rfl, length, inside, rfl⟩
  · intro parts
    obtain ⟨countable, numbers, rfl, length, inside, rfl⟩ := parts
    exact .array integer array sequence countable length inside

end Field

/-- The arguments for elements that are written as scalars. -/
def Field.elementArguments (field : Field) (values : List Nat) : List Argument :=
  values.map fun value => ⟨field.kind, .integer value⟩

/-- Values are bound to elements exactly when each is an integer in range. -/
theorem bound_elements_iff {field : Field} (integer : field.kind ≠ .string) {row : List Field}
    (scalars : ∀ scalar ∈ row, ∃ aligned, scalar = field.element aligned) {items : List Value}
    {arguments : List Argument} :
    Bound row items arguments ↔
      ∃ numbers : List Int, items = numbers.map .integer ∧ numbers.length = row.length ∧
        (∀ number ∈ numbers, InWidth field.width number) ∧
        arguments =
          field.elementArguments (numbers.map fun number => lowBits number field.width) := by
  apply Iff.intro
  · intro bound
    induction bound with
    | nil => exact ⟨[], rfl, rfl, List.forall_mem_nil _, rfl⟩
    | cons first _ ih =>
        obtain ⟨⟨aligned, rfl⟩, others⟩ := List.forall_mem_cons.mp scalars
        obtain ⟨number, rfl, own, rfl⟩ := (Field.bind_element_iff integer).mp first
        obtain ⟨numbers, rfl, length, inside, rfl⟩ := ih others
        exact ⟨number :: numbers, rfl, congrArg Nat.succ length,
          List.forall_mem_cons.mpr ⟨own, inside⟩, rfl⟩
  · intro parts
    obtain ⟨numbers, rfl, length, inside, rfl⟩ := parts
    induction row generalizing numbers with
    | nil =>
        obtain rfl := List.eq_nil_of_length_eq_zero length
        exact .nil
    | cons scalar row ih =>
        obtain ⟨⟨aligned, rfl⟩, others⟩ := List.forall_mem_cons.mp scalars
        cases numbers with
        | nil => contradiction
        | cons number numbers =>
            obtain ⟨own, inside⟩ := List.forall_mem_cons.mp inside
            exact .cons ((Field.bind_element_iff integer).mpr ⟨number, rfl, own, rfl⟩)
              (ih others numbers (Nat.succ.inj length) inside)

/-- `elementArguments` is injective. -/
theorem Field.elementArguments_injective (field : Field) :
    Function.Injective field.elementArguments := by
  refine List.map_injective_iff.mpr fun first second same => ?_
  exact Payload.integer.inj (Argument.mk.inj same).2

/-- A sequence of the right length that can be counted is bound to an array exactly when its items
are bound to the elements. -/
theorem bound_array_iff {field : Field} (valid : field.Valid) (array : field.shape = .array)
    {value : Value} {items : List Value} (sequence : value.elements? = some items)
    (countable : value.hasItemsBelow Value.countBound = true) (enough : items.length = field.count)
    {arguments : List Argument} :
    Bound [field] [value] arguments ↔
      ∃ numbers, arguments = [⟨field.kind, .integers numbers⟩] ∧
        Bound field.elements items (field.elementArguments numbers) := by
  have integer := valid.ne_string_of_array array
  have scalars (scalar : Field) (member : scalar ∈ field.elements) :=
    Field.exists_of_mem_elements member
  apply Iff.intro
  · intro bound
    cases bound with
    | cons first others =>
        cases others
        obtain ⟨_, numbers, rfl, length, inside, rfl⟩ :=
          (Field.bind_array_iff valid array sequence).mp first
        exact ⟨_, rfl, (bound_elements_iff integer scalars).mpr
          ⟨numbers, rfl, length.trans (Field.length_elements valid).symm, inside, rfl⟩⟩
  · intro parts
    obtain ⟨values, rfl, bound⟩ := parts
    obtain ⟨numbers, rfl, length, inside, same⟩ := (bound_elements_iff integer scalars).mp bound
    obtain rfl := field.elementArguments_injective same
    exact .cons ((Field.bind_array_iff valid array sequence).mpr
      ⟨countable, numbers, rfl, length.trans (Field.length_elements valid), inside, rfl⟩) .nil

/-! ## Where elements lie -/

namespace Layout

variable {directive : Directive} (free : directive.isAligned = false)

include free

private theorem start_of_free (cursor : Nat) : directive.start cursor = cursor :=
  if_neg (by simp [free])

/-- `stop` of directives that are not aligned adds up their sizes. -/
theorem stop_replicate (cursor count : Nat) :
    stop cursor (List.replicate count directive) = cursor + directive.bitSize * count := by
  induction count generalizing cursor with
  | zero => rfl
  | succ count ih =>
      rw [List.replicate_succ, stop_cons, ih, Directive.stop, start_of_free free, Nat.mul_succ]
      omega

theorem place_replicate (cursor : Nat) (bodies : List Bits) :
    place cursor (List.replicate bodies.length directive) bodies = bodies.flatten := by
  induction bodies generalizing cursor with
  | nil => rfl
  | cons body bodies ih =>
      rw [List.length_cons, List.replicate_succ, place, ih,
        Directive.gap_of_not_aligned (by simp [free])]
      rfl

/-- `slices` of concatenated bodies are the bodies. -/
theorem slices_replicate {record : Bits} {cursor : Nat} {bodies : List Bits}
    (lengths : ∀ body ∈ bodies, body.length = directive.bitSize)
    (held : bodies.flatten <+: record.drop cursor) :
    slices record cursor (List.replicate bodies.length directive) = bodies := by
  induction bodies generalizing cursor with
  | nil => rfl
  | cons body bodies ih =>
      obtain ⟨own, others⟩ := List.forall_mem_cons.mp lengths
      obtain ⟨behind, split⟩ := held
      rw [List.flatten_cons, List.append_assoc] at split
      have later : bodies.flatten <+: record.drop (cursor + directive.bitSize) := by
        rw [← List.drop_drop, ← split, ← own, List.drop_left]
        exact List.prefix_append _ behind
      rw [List.length_cons, List.replicate_succ, slices, Directive.stop, start_of_free free,
        ih others later, ← split, ← own, List.take_left]

end Layout

namespace Field

variable {field : Field} {values : List Nat}

/-- The bits of an element, on a byte boundary or not. -/
private def elementImage (field : Field) (value : Nat) : Bits :=
  (field.element false).image (.integer value)

private theorem length_elementImage (integer : field.kind ≠ .string)
    (small : ∀ value ∈ values, value < 2 ^ field.width) :
    ∀ body ∈ values.map field.elementImage, body.length = field.width := by
  intro body member
  obtain ⟨value, listed, rfl⟩ := List.mem_map.mp member
  exact (length_image (element_valid integer false) rfl
    (carries_element integer false (small value listed))).trans (bitSize_element field false)

/-- The image of an array is that of its elements, one behind the other. -/
private theorem image_integers (small : ∀ value ∈ values, value < 2 ^ field.width) :
    field.image (.integers values) = (values.map field.elementImage).flatten := by
  by_cases bit : field.kind = .bit
  · have single (value : Nat) (member : value ∈ values) :
        field.elementImage value = [value == 1] := by
      have binary := small value member
      rw [width_of_bit bit] at binary
      have choice : value = 0 ∨ value = 1 := by omega
      rw [elementImage, image, if_pos (show (field.element false).kind = .bit from bit), runImage,
        order_element_of_bit bit]
      rcases choice with rfl | rfl <;> rfl
    rw [image, if_pos bit, List.map_congr_left single, List.map_eq_flatMap, List.flatMap_def]
  · have single (value : Nat) :
        field.elementImage value = Bits.ofWord field.order field.width value := by
      rw [elementImage, image, if_neg (show (field.element false).kind ≠ .bit from bit),
        order_element_of_ne_bit bit]
      rfl
    rw [image, if_neg bit, List.flatMap_def, List.map_congr_left fun value _ => single value]

/-- The elements of an array end where the array does. -/
theorem stop_elements (valid : field.Valid) (cursor : Nat) :
    Layout.stop cursor [.field field] = Layout.stop cursor (field.elements.map .field) := by
  have positive := valid.count_pos
  have start : (Directive.field (field.element field.aligned)).start cursor =
      (Directive.field field).start cursor := rfl
  have total : field.width * field.count = field.width + field.width * (field.count - 1) := by
    rw [Nat.add_comm, ← Nat.mul_succ]
    congr 1
    omega
  rw [elements, List.map_cons, List.map_replicate, Layout.stop_cons, Layout.stop_cons,
    Layout.stop_nil, Layout.stop_replicate rfl, Directive.stop, Directive.stop, start,
    Directive.bitSize, Directive.bitSize, Directive.bitSize, bitSize_element, bitSize_element,
    bitSize, total, Nat.add_assoc]

/-- The elements of an array are placed like the array. -/
theorem place_elements (valid : field.Valid) (enough : values.length = field.count)
    (small : ∀ value ∈ values, value < 2 ^ field.width) (cursor : Nat) :
    Layout.place cursor [.field field] [field.image (.integers values)] =
      Layout.place cursor (field.elements.map .field) (values.map field.elementImage) := by
  have positive := valid.count_pos
  cases values with
  | nil => exact absurd enough (Nat.ne_of_lt positive)
  | cons value values =>
      have left : field.count - 1 = (values.map field.elementImage).length := by
        rw [List.length_map, ← enough, List.length_cons]
        omega
      have gap : (Directive.field (field.element field.aligned)).gap cursor =
          (Directive.field field).gap cursor := rfl
      have alone : Layout.place cursor [.field field] [field.image (.integers (value :: values))] =
          List.replicate ((Directive.field field).gap cursor) false
            ++ field.image (.integers (value :: values)) := List.append_nil _
      rw [alone, elements, List.map_cons, List.map_replicate, left, List.map_cons, Layout.place,
        Layout.place_replicate rfl, image_integers small, List.map_cons, List.flatten_cons, gap,
        List.append_assoc]

/-- The slices of the elements of an array make up the slice of the array. -/
private theorem slices_elements (valid : field.Valid) (integer : field.kind ≠ .string)
    (enough : values.length = field.count) (small : ∀ value ∈ values, value < 2 ^ field.width)
    {record : Bits} {cursor : Nat}
    (held : (record.drop ((Directive.field field).start cursor)).take field.bitSize =
      field.image (.integers values)) :
    Layout.slices record cursor (field.elements.map .field) = values.map field.elementImage := by
  have positive := valid.count_pos
  let start := (Directive.field field).start cursor
  have several : field.count = field.count - 1 + 1 := by omega
  have whole : Layout.slices record cursor (field.elements.map .field) =
      Layout.slices record start
        (List.replicate (values.map field.elementImage).length (.field (field.element false))) := by
    rw [List.length_map, enough, several, List.replicate_succ, elements, List.map_cons,
      List.map_replicate]
    rfl
  have first : (values.map field.elementImage).flatten <+: record.drop start := by
    rw [← image_integers small, ← held]
    exact List.take_prefix _ _
  rw [whole]
  refine Layout.slices_replicate rfl (fun body member => ?_) first
  exact (length_elementImage integer small body member).trans (bitSize_element field false).symm

/-- The contents of the elements of an array are the integers of its content. -/
theorem contents_elements (valid : field.Valid) (array : field.shape = .array) {record : Bits}
    {cursor : Nat} (reached : Layout.stop cursor [.field field] ≤ record.length) :
    ∃ numbers, numbers.length = field.count ∧
      Record.contents [.field field] (Layout.slices record cursor [.field field]) =
        [.integers numbers] ∧
      Record.contents (field.elements.map .field)
          (Layout.slices record cursor (field.elements.map .field)) = numbers.map .integer := by
  have integer := valid.ne_string_of_array array
  have given : field.takesValue = true := Option.isNone_iff_eq_none.mpr (valid.array_given array)
  let body := (record.drop ((Directive.field field).start cursor)).take field.bitSize
  have length : body.length = field.bitSize := by
    have fits : Layout.Fits [.field field] (Layout.slices record cursor [.field field]) :=
      Layout.fits_slices reached
    exact (List.forall₂_cons.mp fits).1
  have carried := carries_content valid given length
  have same := image_content valid given length
  generalize held : field.content body = payload at carried same
  cases carried with
  | string string => exact absurd string integer
  | scalar _ scalar =>
      rw [array] at scalar
      contradiction
  | @array numbers _ _ enough small =>
      refine ⟨numbers, enough, ?_, ?_⟩
      · have only := @Record.contents_row [field] (List.forall_mem_singleton.mpr given) [body]
        rw [List.zipWith_cons_cons, held] at only
        exact only
      · rw [slices_elements valid integer enough small same.symm,
          Record.contents_row takesValue_elements,
          zipWith_elements valid content (fun _ => rfl) (by rw [List.length_map, enough]),
          List.map_map]
        refine List.map_congr_left fun number member => ?_
        exact content_image (carries_element integer false (small number member))

/-- The images of elements are those of an array. -/
private theorem images_elements (valid : field.Valid) (enough : values.length = field.count) :
    Record.images field.elements (field.elementArguments values) =
      values.map field.elementImage := by
  have length : (field.elementArguments values).length = field.count :=
    (List.length_map _).trans enough
  rw [Record.images, zipWith_elements valid _ (fun _ => rfl) length, elementArguments, List.map_map]
  rfl

/-- An array with a sequence of its length that can be counted is interchangeable with its elements
and the items of the sequence. -/
theorem interchangeable_elements (valid : field.Valid) (array : field.shape = .array)
    {value : Value} {items : List Value} (sequence : value.elements? = some items)
    (countable : value.hasItemsBelow Value.countBound = true)
    (enough : items.length = field.count) :
    Record.Interchangeable [field] field.elements [value] items := by
  have places {numbers : List Nat}
      (own_bound : Bound [field] [value] [⟨field.kind, .integers numbers⟩]) (cursor : Nat) :
      Layout.place cursor [.field field]
          (Record.images [field] [⟨field.kind, .integers numbers⟩]) =
        Layout.place cursor (field.elements.map .field)
          (Record.images field.elements (field.elementArguments numbers)) := by
    cases own_bound.carried with
    | cons carried _ =>
        cases carried with
        | array _ _ length small =>
            rw [images_elements valid length]
            exact place_elements valid length small cursor
  have own_iff {arguments : List Argument} : Bound [field] [value] arguments ↔
      ∃ numbers, arguments = [⟨field.kind, .integers numbers⟩] ∧
        Bound field.elements items (field.elementArguments numbers) :=
    bound_array_iff valid array sequence countable enough
  refine ⟨rfl, enough.trans (length_elements valid).symm, stop_elements valid,
    fun own_bound => ?_, fun swapped_bound => ?_⟩
  · obtain ⟨numbers, rfl, elements_bound⟩ := own_iff.mp own_bound
    exact ⟨_, elements_bound, places own_bound⟩
  · obtain ⟨numbers, _, _, _, rfl⟩ := (bound_elements_iff (valid.ne_string_of_array array)
      fun _ => exists_of_mem_elements).mp swapped_bound
    have own_bound := own_iff.mpr ⟨_, rfl, swapped_bound⟩
    exact ⟨_, own_bound, places own_bound⟩

end Field

namespace Format

variable {given values others value : Value} {format expanded : Format}
  {front back : List Directive} {field : Field} {before items behind : List Value}

/-- `Format.bind` of values gives a payload to the single field of a row. -/
private theorem exists_payload_of_accepted (has : format.HasRow front [field] back)
    (front_enough : before.length = (Directive.givenFields front).length)
    (listed : values.Lists (before ++ ([value] ++ behind)))
    (accepted : ∃ arguments, (format.bind values).outcome = .ok arguments) :
    ∃ payload, field.bind value = .ok payload := by
  obtain ⟨arguments, bound⟩ := accepted
  obtain ⟨_, _, _, _, _, own_bound, _⟩ := (has.bind_iff listed front_enough rfl).mp bound
  cases own_bound with
  | cons success _ => exact ⟨_, success⟩

/-- `Format.bind` accepts values with a sequence for an array exactly when the sequence can be
counted, has as many items as the array has elements, and is accepted item by item. -/
private theorem accepts_array_iff (has : format.HasRow front [field] back)
    (also : expanded.HasRow front field.elements back) (valid : field.Valid)
    (array : field.shape = .array)
    (front_enough : before.length = (Directive.givenFields front).length)
    (listed : values.Lists (before ++ ([value] ++ behind)))
    (sequence : value.elements? = some items)
    (others_listed : others.Lists (before ++ (items ++ behind))) :
    (∃ arguments, (format.bind values).outcome = .ok arguments) ↔
      value.hasItemsBelow Value.countBound = true ∧ items.length = field.count ∧
        ∃ arguments, (expanded.bind others).outcome = .ok arguments := by
  have same (countable : value.hasItemsBelow Value.countBound = true)
      (enough : items.length = field.count) :=
    has.accepts_iff also (Field.interchangeable_elements valid array sequence countable enough)
      front_enough listed others_listed
  apply Iff.intro
  · intro accepted
    obtain ⟨payload, success⟩ := exists_payload_of_accepted has front_enough listed accepted
    obtain ⟨countable, numbers, rfl, length, _⟩ :=
      (Field.bind_array_iff valid array sequence).mp success
    have enough : (numbers.map Value.integer).length = field.count :=
      (List.length_map _).trans length
    exact ⟨countable, enough, (same countable enough).mp accepted⟩
  · intro parts
    obtain ⟨countable, enough, accepted⟩ := parts
    exact (same countable enough).mpr accepted

/-- In any format an array can be replaced by its elements as scalars. `Format.bind` accepts values
with a sequence for the array exactly when the sequence can be counted, has as many items as the
array has elements and is accepted item by item, and then `pack` gives the same records with every
random source. Only sequences are accepted for an array. `unpack` succeeds on the same buffers, with
the list of the array in place of the payloads of the scalars. -/
theorem elements_replace_array (compiled : (compile given).outcome = .ok format)
    (split : format.directives = front ++ .field field :: back) (array : field.shape = .array) :
    (∃ text expanded, (compile (.text text)).outcome = .ok expanded ∧
      expanded.directives = front ++ (field.elements.map .field ++ back)) ∧
    ∀ (replaced : Value) (expanded : Format), (compile replaced).outcome = .ok expanded →
      expanded.directives = front ++ (field.elements.map .field ++ back) →
      (∀ (values value : Value) (before behind : List Value),
        before.length = (Directive.givenFields front).length →
        values.Lists (before ++ value :: behind) →
        (value.elements? = none → ¬ ∃ arguments, (format.bind values).outcome = .ok arguments) ∧
        ∀ (others : Value) (items : List Value), value.elements? = some items →
          others.Lists (before ++ (items ++ behind)) →
          ((∃ arguments, (format.bind values).outcome = .ok arguments) ↔
            value.hasItemsBelow Value.countBound = true ∧ items.length = field.count ∧
              ∃ arguments, (expanded.bind others).outcome = .ok arguments) ∧
          (value.hasItemsBelow Value.countBound = true → items.length = field.count →
            ∀ source record,
              (BitRecord.pack given values source).outcome = .ok record ↔
                (BitRecord.pack replaced others source).outcome = .ok record)) ∧
      ∀ buffer length : Value,
        ((∃ payloads, (BitRecord.unpack given buffer length).outcome = .ok payloads) ↔
          ∃ payloads, (BitRecord.unpack replaced buffer length).outcome = .ok payloads) ∧
        ∀ payloads, (BitRecord.unpack given buffer length).outcome = .ok payloads →
          ∃ before numbers behind, before.length = (Directive.givenFields front).length ∧
            numbers.length = field.count ∧ payloads = before ++ .integers numbers :: behind ∧
            (BitRecord.unpack replaced buffer length).outcome =
              .ok (before ++ (numbers.map .integer ++ behind)) := by
  have directives_valid := valid_of_compile compiled
  have valid : field.Valid := by
    refine directives_valid (.field field) ?_
    rw [split]
    exact List.mem_append_right front List.mem_cons_self
  have integer := valid.ne_string_of_array array
  have given_field : field.takesValue = true :=
    Option.isNone_iff_eq_none.mpr (valid.array_given array)
  have has : format.HasRow front [field] back :=
    ⟨directives_valid, split, List.forall_mem_singleton.mpr given_field⟩
  refine ⟨has.exists_replaced compiled (List.cons_ne_nil _ _) Field.takesValue_elements
    (List.cons_ne_nil _ _) (Field.elements_valid integer), ?_⟩
  intro replaced expanded expanded_compiled expanded_split
  have also : expanded.HasRow front field.elements back :=
    ⟨valid_of_compile expanded_compiled, expanded_split, Field.takesValue_elements⟩
  refine ⟨fun values value before behind front_enough listed => ?_,
    fun buffer length => ⟨?_, fun payloads unpacked => ?_⟩⟩
  · have listed : values.Lists (before ++ ([value] ++ behind)) := listed
    refine ⟨fun other accepted => ?_, fun others items sequence others_listed =>
      ⟨accepts_array_iff has also valid array front_enough listed sequence others_listed,
        fun countable enough source record => ?_⟩⟩
    · obtain ⟨payload, success⟩ := exists_payload_of_accepted has front_enough listed accepted
      have refused := (Field.Refuses.notSequence integer array other).bind valid
      rw [success] at refused
      contradiction
    · have interchange := Field.interchangeable_elements valid array sequence countable enough
      rw [pack_of_compile compiled, pack_of_compile expanded_compiled]
      exact has.pack_iff also interchange front_enough listed others_listed
  · rw [unpack_of_compile compiled, unpack_of_compile expanded_compiled]
    exact has.unpack_succeeds_iff also (Field.stop_elements valid) buffer length
  · rw [unpack_of_compile compiled] at unpacked
    obtain ⟨record, before, behind, front_enough, reached, rfl, read⟩ := has.exists_reading unpacked
    obtain ⟨numbers, enough, whole, parts⟩ := Field.contents_elements valid array reached
    have expanded_read := read also (Field.stop_elements valid)
    rw [parts] at expanded_read
    refine ⟨before, numbers, behind, front_enough, enough, ?_,
      (unpack_of_compile expanded_compiled buffer length).trans expanded_read⟩
    exact congrArg (fun contents => before ++ (contents ++ behind)) whole

/-- The mixed format with two bytes in the place of its array. -/
def spread : Format where
  given := .text "%3liA%ri%y%y%2s"
  items := [⟨0, .field ⟨.bit, 3, .little, false, none, .scalar⟩⟩, ⟨4, .literal [65]⟩,
    ⟨5, .field ⟨.bit, 1, .native, false, some .random, .scalar⟩⟩,
    ⟨8, .field ⟨.byte, 1, .native, false, none, .scalar⟩⟩,
    ⟨10, .field ⟨.byte, 1, .native, false, none, .scalar⟩⟩,
    ⟨12, .field ⟨.string, 2, .native, false, none, .scalar⟩⟩]

theorem compile_spread : (compile spread.given).outcome = .ok spread :=
  @compile_of_piecesWithin "%3liA%ri%y%y%2s" 15 spread.items (by decide) (by decide +kernel)

/-- The array of two bytes behind the random bit, and its elements. -/
theorem elements_replace_array_spread :
    (∃ arguments, (spread.bind (.list [.integer 160, .integer 1, .integer (-1),
      .buffer .bytes [7]])).outcome = .ok arguments) ∧
    (∀ source record, (BitRecord.pack mixed.given mixedValues source).outcome = .ok record ↔
      (BitRecord.pack spread.given (.list [.integer 160, .integer 1, .integer (-1),
        .buffer .bytes [7]]) source).outcome = .ok record) ∧
    (BitRecord.unpack spread.given (.buffer .bytes [160, 65, 128, 255, 131, 128, 0])
      .null).outcome = .ok [.integer 160, .integer 1, .integer 255, .bytes [7, 0]] := by
  obtain ⟨_, replaces⟩ := @elements_replace_array mixed.given mixed (mixed.directives.take 3)
    (mixed.directives.drop 4) ⟨.byte, 2, .native, false, none, .array⟩ compile_mixed rfl rfl
  obtain ⟨packs, reads⟩ := replaces spread.given spread compile_spread rfl
  obtain ⟨_, spreads⟩ := packs mixedValues (.list [.integer 1, .integer (-1)]) [.integer 160]
    [.buffer .bytes [7]] rfl ⟨rfl, rfl, rfl, rfl⟩
  obtain ⟨accepts, same⟩ := spreads (.list [.integer 160, .integer 1, .integer (-1),
    .buffer .bytes [7]]) [.integer 1, .integer (-1)] rfl ⟨rfl, rfl, rfl, rfl⟩
  have unpacked : (BitRecord.unpack mixed.given
      (.buffer .bytes [160, 65, 128, 255, 131, 128, 0]) .null).outcome =
        .ok [.integer 160, .integers [1, 255], .bytes [7, 0]] := by
    rw [unpack_of_compile compile_mixed]
    decide +kernel
  obtain ⟨before, numbers, behind, front, count, whole, read⟩ := (reads _ _).2 _ unpacked
  refine ⟨(accepts.mp ⟨_, bind_mixedValues⟩).2.2, same rfl rfl, read.trans ?_⟩
  match before, front, whole with
  | [_], _, rfl => rfl

end Format

end BitRecord
