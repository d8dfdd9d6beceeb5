/-
# What unpacking depends on

`unpack` depends on the bits of literals and of fields that take a value, and on
nothing else: buffers that agree on these give the same payloads or the same
failure, whatever the bits of the gaps, of filled fields and behind the record
are. It depends on each of these bits. One bit flipped in the place of a field
changes the payload of this field and no other, because the image of the payload
is the bits of the field; one bit flipped in a literal is a mismatch.
-/

import BitRecord.Proofs.Record.Reencoding
import BitRecord.Proofs.Record.Seam

namespace BitRecord

/-- Two byte strings that differ in the bit at `index` and in no other. -/
def Bytes.FlippedAt (index : Nat) (bytes other : Bytes) : Prop :=
  Bits.ofBytes other = (Bits.ofBytes bytes).modify index not

namespace Bytes.FlippedAt

variable {bytes other : Bytes} {index : Nat}

theorem length_eq (flipped : FlippedAt index bytes other) : other.length = bytes.length := by
  have lengths := congrArg List.length flipped
  rw [List.length_modify, Bits.length_ofBytes, Bits.length_ofBytes] at lengths
  omega

/-- Two byte strings that differ in one bit still do when both are cut behind it. -/
theorem take (flipped : FlippedAt index bytes other) (size : Nat) :
    FlippedAt index (bytes.take size) (other.take size) := by
  unfold FlippedAt at flipped ⊢
  rw [Bits.ofBytes_take, flipped, List.take_modify, Bits.ofBytes_take]

theorem getElem?_of_ne (flipped : FlippedAt index bytes other) {place : Nat}
    (apart : place ≠ index) :
    (Bits.ofBytes other)[place]? = (Bits.ofBytes bytes)[place]? := by
  unfold FlippedAt at flipped
  rw [flipped, List.getElem?_modify]
  simp [Ne.symm apart]

/-- The bits at the flipped index differ. -/
theorem getElem?_ne (flipped : FlippedAt index bytes other) (inside : index < 8 * bytes.length) :
    (Bits.ofBytes other)[index]? ≠ (Bits.ofBytes bytes)[index]? := by
  rw [← Bits.length_ofBytes] at inside
  unfold FlippedAt at flipped
  rw [flipped, List.getElem?_modify, List.getElem?_eq_getElem inside]
  simp

end Bytes.FlippedAt

namespace Directive

/-- Two records have the same slice for `directive` at `cursor`, unless it is a filled field. -/
def SameContent (directive : Directive) (cursor : Nat) (record other : Bytes) : Prop :=
  directive.role = .content → directive.slice record cursor = directive.slice other cursor

variable {directive : Directive} {record other : Bytes} {cursor : Nat}

/-- Slices are equal when the records agree on each of their bits. -/
theorem slice_congr
    (same : ∀ index, directive.start cursor ≤ index → index < directive.stop cursor →
      (Bits.ofBytes record)[index]? = (Bits.ofBytes other)[index]?) :
    directive.slice record cursor = directive.slice other cursor := by
  apply List.ext_getElem?
  intro index
  rw [slice, slice]
  by_cases inside : index < directive.bitSize
  · rw [List.getElem?_take_of_lt inside, List.getElem?_take_of_lt inside, List.getElem?_drop,
      List.getElem?_drop]
    apply same
    · exact Nat.le_add_right _ _
    · rw [stop]
      exact Nat.add_lt_add_left inside _
  · rw [List.getElem?_take_eq_none (Nat.le_of_not_lt inside),
      List.getElem?_take_eq_none (Nat.le_of_not_lt inside)]

/-- Records with equal slices agree on each bit in the place of the directive. -/
theorem getElem?_of_slice_eq (same : directive.slice record cursor = directive.slice other cursor)
    {index : Nat} (from_start : directive.start cursor ≤ index)
    (to_stop : index < directive.stop cursor) :
    (Bits.ofBytes record)[index]? = (Bits.ofBytes other)[index]? := by
  have here := congrArg (fun bits : Bits => bits[index - directive.start cursor]?) same
  have inside : index - directive.start cursor < directive.bitSize := by
    rw [stop] at to_stop
    omega
  dsimp only [slice] at here
  rwa [List.getElem?_take_of_lt inside, List.getElem?_take_of_lt inside, List.getElem?_drop,
    List.getElem?_drop, Nat.add_sub_cancel' from_start] at here

/-- The slice of a directive within the record has `bitSize` bits. -/
theorem length_slice (enough : directive.stop cursor ≤ 8 * record.length) :
    (directive.slice record cursor).length = directive.bitSize := by
  rw [stop] at enough
  rw [slice, List.length_take, List.length_drop, Bits.length_ofBytes]
  omega

/-- The slice of a literal is the bits of the bytes in its place. -/
theorem slice_literal (data record : Bytes) (cursor : Nat) :
    (literal data).slice record cursor =
      Bits.ofBytes (record.slice ((literal data).start cursor / 8) data.length) := by
  rw [Bits.ofBytes_slice, eight_mul_start_literal]
  rfl

/-- Slices differ when one bit is flipped in the place of the directive. -/
theorem slice_ne_of_flipped {index : Nat} (flipped : Bytes.FlippedAt index record other)
    (enough : directive.stop cursor ≤ 8 * record.length)
    (from_start : directive.start cursor ≤ index) (to_stop : index < directive.stop cursor) :
    directive.slice other cursor ≠ directive.slice record cursor := by
  intro same
  exact flipped.getElem?_ne (Nat.lt_of_lt_of_le to_stop enough)
    (getElem?_of_slice_eq same from_start to_stop)

/-- Records of one length with the same content have the same `obstacle?`. -/
theorem obstacle?_congr (length : record.length = other.length)
    (same : directive.SameContent cursor record other) :
    directive.obstacle? record cursor = directive.obstacle? other cursor := by
  have shortage (stride : Nat) :
      (Reader.atBit record (directive.start cursor)).shortage stride =
        (Reader.atBit other (directive.start cursor)).shortage stride := by
    unfold Reader.shortage
    rw [Reader.remaining_atBit, Reader.remaining_atBit, length]
    rfl
  unfold obstacle?
  rw [length, shortage]
  cases directive with
  | field field => rfl
  | literal data =>
      have found := congrArg Bits.toBytes (same rfl)
      rw [toBytes_slice_literal, toBytes_slice_literal] at found
      dsimp only
      rw [found]

/-- The slices of records with the same content have the same `content?`. -/
theorem content?_congr (same : directive.SameContent cursor record other) :
    directive.content? (directive.slice record cursor) =
      directive.content? (directive.slice other cursor) := by
  cases directive with
  | literal data => rfl
  | field field =>
      cases fill : field.fill with
      | some mode =>
          have filled := Field.takesValue_of_fill fill
          rw [content?, content?, filled]
          rfl
      | none =>
          have carries : (Directive.field field).role = .content := by
            rw [role, fill]
          rw [same carries]

end Directive

namespace Layout

/-- The cursor of a visit is not before the cursor that the walk starts with. -/
theorem le_of_mem_visits {cursor : Nat} {items : List Item} {visit : Item × Nat}
    (member : visit ∈ visits cursor items) : cursor ≤ visit.2 := by
  induction items generalizing cursor with
  | nil => contradiction
  | cons item items ih =>
      rcases List.mem_cons.mp member with rfl | later
      · exact Nat.le_refl cursor
      · have step := item.directive.stop_eq cursor
        have reached := ih later
        omega

/-- The visits of `items ++ others` are those of `items`, then those of `others` from the stop of
`items`. -/
theorem visits_append (cursor : Nat) (items others : List Item) :
    visits cursor (items ++ others) =
      visits cursor items ++ visits (stop cursor (items.map Item.directive)) others := by
  induction items generalizing cursor with
  | nil => rfl
  | cons item items ih =>
      rw [List.cons_append, visits, ih, visits, List.map_cons, stop_cons, List.cons_append]

/-- The bits from the start to the stop of a visited directive have its role in `roles`. -/
theorem getElem?_roles {cursor : Nat} {items : List Item} {visit : Item × Nat}
    (member : visit ∈ visits cursor items) {index : Nat}
    (from_start : visit.1.directive.start visit.2 ≤ index)
    (to_stop : index < visit.1.directive.stop visit.2) :
    (roles cursor (items.map Item.directive))[index - cursor]? =
      some visit.1.directive.role := by
  induction items generalizing cursor with
  | nil => contradiction
  | cons item items ih =>
      have start := item.directive.start_eq cursor
      have stop := item.directive.stop_eq cursor
      rw [List.map_cons, roles]
      rcases List.mem_cons.mp member with rfl | later
      · dsimp only at from_start to_stop ⊢
        rw [List.getElem?_append_left (by simp; omega), List.getElem?_append_right (by simp; omega),
          List.getElem?_replicate, List.length_replicate, if_pos (by omega)]
      · have reached := le_of_mem_visits later
        have own := visit.1.directive.start_eq visit.2
        rw [List.getElem?_append_right (by simp; omega), ← ih later]
        congr 1
        simp only [List.length_append, List.length_replicate]
        omega

end Layout

namespace Record

variable {record other : Bytes} {cursor : Nat} {items : List Item}

/-- `read` gives the same result on records of one length with the same content at every visit. -/
theorem read_congr (valid : ∀ item ∈ items, item.directive.Valid)
    (length : record.length = other.length) (inside : cursor ≤ 8 * record.length)
    (same : ∀ visit ∈ Layout.visits cursor items,
      visit.1.directive.SameContent visit.2 record other) :
    read items (.atBit record cursor) = read items (.atBit other cursor) := by
  induction items generalizing cursor with
  | nil => rfl
  | cons item items ih =>
      obtain ⟨first_valid, others_valid⟩ := List.forall_mem_cons.mp valid
      obtain ⟨first, others⟩ := List.forall_mem_cons.mp same
      have obstacle := Directive.obstacle?_congr length first
      have other_inside : cursor ≤ 8 * other.length := by
        rwa [← length]
      rw [read, read]
      cases way : item.directive.obstacle? record cursor with
      | none =>
          have enough := (Directive.obstacle?_eq_none_iff.mp way).1
          rw [readItem_of_clear first_valid inside way,
            readItem_of_clear first_valid other_inside (obstacle.symm.trans way),
            Directive.content?_congr first, Traced.ok_bind, Traced.ok_bind]
          dsimp only
          rw [ih others_valid enough others]
      | some cause =>
          rw [readItem_of_obstacle inside way,
            readItem_of_obstacle other_inside (obstacle.symm.trans way)]

/-- Records with the same content at every visit have the same `contents`. -/
theorem contents_congr
    (same : ∀ visit ∈ Layout.visits cursor items,
      visit.1.directive.SameContent visit.2 record other) :
    contents (items.map Item.directive)
        (Layout.slices (Bits.ofBytes record) cursor (items.map Item.directive)) =
      contents (items.map Item.directive)
        (Layout.slices (Bits.ofBytes other) cursor (items.map Item.directive)) := by
  induction items generalizing cursor with
  | nil => rfl
  | cons item items ih =>
      obtain ⟨first, others⟩ := List.forall_mem_cons.mp same
      have own : item.directive.content? (item.directive.slice record cursor) =
        item.directive.content? (item.directive.slice other cursor) :=
          Directive.content?_congr first
      rw [List.map_cons, Layout.slices, contents, ih others, Layout.slices, contents]
      exact congrArg (fun payload : Option Payload => payload.toList ++ _) own

end Record

namespace Format

/-- The first `size` bytes of both strings agree on the bits with the role `content`. -/
def AgreeWithin (format : Format) (size : Nat) (bytes other : Bytes) : Prop :=
  ∀ index, format.roles[index]? = some .content → index < 8 * size →
    (Bits.ofBytes other)[index]? = (Bits.ofBytes bytes)[index]?

variable {given buffer length other otherLength : Value} {format : Format}
  {bytes otherBytes : Bytes} {payloads : List Payload} {size index : Nat}

/-- `read` gives the same result on the first `size` bytes of strings that agree on content. -/
theorem read_take_congr (valid : ∀ directive ∈ format.directives, directive.Valid)
    (inside : size ≤ bytes.length) (other_inside : size ≤ otherBytes.length)
    (agree : format.AgreeWithin size bytes otherBytes) :
    Record.read format.items (.atBit (otherBytes.take size) 0) =
      Record.read format.items (.atBit (bytes.take size) 0) := by
  have cut : (bytes.take size).length = size := by rw [List.length_take, Nat.min_eq_left inside]
  have other_cut : (otherBytes.take size).length = size := by
    rw [List.length_take, Nat.min_eq_left other_inside]
  refine Record.read_congr (valid_items valid) (other_cut.trans cut.symm) (Nat.zero_le _) ?_
  intro visit member carries
  refine Directive.slice_congr fun index from_start to_stop => ?_
  rw [Bits.ofBytes_take, Bits.ofBytes_take]
  by_cases readable : index < 8 * size
  · rw [List.getElem?_take_of_lt readable, List.getElem?_take_of_lt readable]
    refine agree index ?_ readable
    have assigned : (Layout.roles 0 format.directives)[index]? = some visit.1.directive.role :=
      Layout.getElem?_roles member from_start to_stop
    rw [carries] at assigned
    obtain ⟨below, _⟩ := List.getElem?_eq_some_iff.mp assigned
    rw [roles, List.getElem?_append_left below]
    exact assigned
  · rw [List.getElem?_take_eq_none (Nat.le_of_not_lt readable),
      List.getElem?_take_eq_none (Nat.le_of_not_lt readable)]

/-- `unpack` gives the same result on buffers that agree on content, when `Reader.readableSize` is
the same for both. -/
theorem unpack_congr (compiled : (compile given).outcome = .ok format)
    (held : buffer.asBytes? = some bytes) (other_held : other.asBytes? = some otherBytes)
    (alike : Reader.readableSize otherBytes.length otherLength =
      Reader.readableSize bytes.length length)
    (agree : ∀ size, Reader.readableSize bytes.length length = .ok size →
      format.AgreeWithin size bytes otherBytes) :
    BitRecord.unpack given other otherLength = BitRecord.unpack given buffer length := by
  cases readable : Reader.readableSize bytes.length length with
  | error cause =>
      have refused : Reader.ofValue other otherLength = Reader.ofValue buffer length := by
        rw [Reader.ofValue, Reader.ofValue, held, other_held]
        dsimp only
        rw [alike, readable]
        rfl
      rw [BitRecord.unpack, BitRecord.unpack, Traced.eq_of_outcome compiled, Traced.ok_bind,
        Traced.ok_bind, Format.unpack, Format.unpack, refused]
  | ok size =>
      have asked := Reader.asksFor_of_readableSize readable
      have other_asked := Reader.asksFor_of_readableSize (alike.trans readable)
      rw [unpack_eq_read compiled other_held other_asked, unpack_eq_read compiled held asked,
        read_take_congr (valid_of_compile compiled) asked.le other_asked.le (agree size readable)]

/-- `unpack` gives the same result on buffers that agree on content, when at least the size of the
format can be read of each. -/
theorem unpack_congr_of_enough (compiled : (compile given).outcome = .ok format)
    (held : buffer.asBytes? = some bytes) (other_held : other.asBytes? = some otherBytes)
    {otherSize : Nat} (readable : Reader.readableSize bytes.length length = .ok size)
    (other_readable : Reader.readableSize otherBytes.length otherLength = .ok otherSize)
    (enough : format.size ≤ size) (other_enough : format.size ≤ otherSize)
    (agree : format.AgreeWithin format.size bytes otherBytes) :
    BitRecord.unpack given other otherLength = BitRecord.unpack given buffer length := by
  have valid := valid_of_compile compiled
  have asked := Reader.asksFor_of_readableSize readable
  have other_asked := Reader.asksFor_of_readableSize other_readable
  rw [unpack_eq_read compiled other_held other_asked, unpack_eq_read compiled held asked,
    read_of_size_le valid asked.le enough, read_of_size_le valid other_asked.le other_enough,
    read_take_congr valid (Nat.le_trans enough asked.le)
      (Nat.le_trans other_enough other_asked.le) agree]

/-- Items in front of the flipped bit have the same content. -/
theorem sameContent_front {record other : Bytes} {cursor : Nat} {items : List Item}
    (flipped : Bytes.FlippedAt index record other)
    (behind : Layout.stop cursor (items.map Item.directive) ≤ index) :
    ∀ visit ∈ Layout.visits cursor items,
      visit.1.directive.SameContent visit.2 other record := by
  intro visit member _
  refine Directive.slice_congr fun place _ to_stop => flipped.getElem?_of_ne ?_
  have reached := Layout.stop_le_of_mem_visits member
  omega

/-- Items behind the flipped bit have the same content. -/
theorem sameContent_back {record other : Bytes} {cursor : Nat} {items : List Item}
    (flipped : Bytes.FlippedAt index record other) (before : index < cursor) :
    ∀ visit ∈ Layout.visits cursor items,
      visit.1.directive.SameContent visit.2 other record := by
  intro visit member _
  refine Directive.slice_congr fun place from_start _ => flipped.getElem?_of_ne ?_
  have reached := Layout.le_of_mem_visits member
  have start := visit.1.directive.start_eq visit.2
  omega

section Flipped

variable {front back : List Item} {item : Item} {cursor : Nat} {record other : Bytes}
  (items : format.items = front ++ item :: back)
  (stands : Layout.stop 0 (front.map Item.directive) = cursor)
  (valid : ∀ directive ∈ format.directives, directive.Valid)
  (reaches : format.bitSize ≤ 8 * record.length)
  (agrees : List.Forall₂ Directive.Agrees format.directives (format.slices record))
  (flipped : Bytes.FlippedAt index record other)
  (from_start : item.directive.start cursor ≤ index) (to_stop : index < item.directive.stop cursor)

include items stands in
theorem visits_split :
    Layout.visits 0 format.items =
      Layout.visits 0 front ++ (item, cursor)
        :: Layout.visits (item.directive.stop cursor) back := by
  rw [items, Layout.visits_append, Layout.visits, stands]

include items stands in
/-- `contents` splits into that of the items in front, that of the item and that of the items
behind. -/
theorem contents_split (record : Bytes) :
    Record.contents format.directives (format.slices record) =
      Record.contents (front.map Item.directive)
          (Layout.slices (Bits.ofBytes record) 0 (front.map Item.directive))
        ++ ((item.directive.content? (item.directive.slice record cursor)).toList
          ++ Record.contents (back.map Item.directive)
            (Layout.slices (Bits.ofBytes record) (item.directive.stop cursor)
              (back.map Item.directive))) := by
  rw [slices, directives, items, List.map_append, List.map_cons, Record.contents_slices_append,
    stands]
  rfl

include items stands reaches in
theorem stop_le_of_split : item.directive.stop cursor ≤ 8 * record.length := by
  have member : (item, cursor) ∈ Layout.visits 0 format.items := by
    rw [visits_split items stands]
    exact List.mem_append_right _ List.mem_cons_self
  exact Nat.le_trans (Layout.stop_le_of_mem_visits member) reaches

include stands flipped from_start to_stop in
/-- The items around the one with the flipped bit have the same content. -/
theorem sameContent_around :
    (∀ visit ∈ Layout.visits 0 front, visit.1.directive.SameContent visit.2 other record) ∧
    ∀ visit ∈ Layout.visits (item.directive.stop cursor) back,
      visit.1.directive.SameContent visit.2 other record := by
  have started := item.directive.start_eq cursor
  exact ⟨sameContent_front flipped (by omega), sameContent_back flipped to_stop⟩

include items stands reaches agrees flipped from_start to_stop in
/-- `Agrees` is not affected by a bit flipped in the place of a field. -/
theorem agrees_of_flipped {field : Field} (is_field : item.directive = .field field) :
    List.Forall₂ Directive.Agrees format.directives (format.slices other) := by
  have length := flipped.length_eq
  have enough := stop_le_of_split items stands reaches
  obtain ⟨front_same, back_same⟩ :=
    @sameContent_around _ front back item cursor record other stands flipped from_start to_stop
  have clear := (Record.clear_iff (Nat.zero_le _)).mpr ⟨reaches, agrees⟩
  refine ((@Record.clear_iff other 0 format.items (Nat.zero_le _)).mp ?_).2
  rw [visits_split items stands, List.forall_mem_append, List.forall_mem_cons] at clear ⊢
  obtain ⟨front_clear, _, back_clear⟩ := clear
  refine ⟨fun visit member => ?_, ?_, fun visit member => ?_⟩
  · exact (Directive.obstacle?_congr length (front_same visit member)).trans
      (front_clear visit member)
  · dsimp only
    rw [is_field] at enough ⊢
    exact Directive.obstacle?_eq_none_iff.mpr ⟨by rwa [length], trivial⟩
  · exact (Directive.obstacle?_congr length (back_same visit member)).trans
      (back_clear visit member)

include reaches flipped from_start to_stop items stands in
/-- The `content?` of a field that takes a value differs when a bit of its place is flipped. -/
theorem content_ne_of_flipped {field : Field} (is_field : item.directive = .field field)
    (given : field.takesValue = true) (field_valid : field.Valid) :
    field.content (item.directive.slice other cursor) ≠
      field.content (item.directive.slice record cursor) := by
  intro same
  have enough := stop_le_of_split items stands reaches
  have was_length := Directive.length_slice enough
  have now_length := Directive.length_slice (flipped.length_eq.symm ▸ enough)
  rw [is_field] at was_length now_length same
  -- The bits of a field are the image of its payload, so equal payloads come from equal bits.
  refine Directive.slice_ne_of_flipped flipped enough from_start to_stop ?_
  rw [is_field, ← Field.image_content field_valid given was_length, ← same,
    Field.image_content field_valid given now_length]

include items stands valid reaches flipped from_start to_stop in
/-- `contents` differs in the payload of the field with the flipped bit and in no other. -/
theorem contents_of_flipped {field : Field} (is_field : item.directive = .field field)
    (given : field.takesValue = true) :
    ∃ before was now after,
      Record.contents format.directives (format.slices record) = before ++ was :: after ∧
      Record.contents format.directives (format.slices other) = before ++ now :: after ∧
      before.length = (Directive.givenFields (front.map Item.directive)).length ∧
      now ≠ was := by
  have enough := stop_le_of_split items stands reaches
  have started := item.directive.start_eq cursor
  have stopped := item.directive.stop_eq cursor
  obtain ⟨front_same, back_same⟩ :=
    @sameContent_around _ front back item cursor record other stands flipped from_start to_stop
  have each_valid : ∀ directive ∈ front.map Item.directive ++ item.directive
      :: back.map Item.directive, directive.Valid := by
    rwa [directives, items, List.map_append, List.map_cons] at valid
  have field_valid : field.Valid := by
    have own := each_valid item.directive (List.mem_append_right _ List.mem_cons_self)
    rwa [is_field] at own
  have content (bits : Bits) : (item.directive.content? bits).toList = [field.content bits] := by
    rw [is_field, Directive.content?, if_pos given]
    rfl
  have front_reaches : Layout.stop 0 (front.map Item.directive)
      ≤ (Bits.ofBytes record).length := by
    rw [stands, Bits.length_ofBytes]
    omega
  have carried := Record.carries_contents
    (fun directive member => each_valid directive (List.mem_append_left _ member))
    (Layout.fits_slices front_reaches)
  refine ⟨Record.contents (front.map Item.directive)
      (Layout.slices (Bits.ofBytes record) 0 (front.map Item.directive)),
    field.content (item.directive.slice record cursor),
    field.content (item.directive.slice other cursor),
    Record.contents (back.map Item.directive)
      (Layout.slices (Bits.ofBytes record) (item.directive.stop cursor)
        (back.map Item.directive)), ?_, ?_, carried.length_eq.symm, ?_⟩
  · rw [contents_split items stands, content]
    rfl
  · rw [contents_split items stands, content, Record.contents_congr front_same,
      Record.contents_congr back_same]
    rfl
  · exact content_ne_of_flipped items stands reaches flipped from_start to_stop is_field given
      field_valid

include items stands valid reaches agrees flipped from_start to_stop in
/-- `read` fails at the literal with the flipped bit, with the mismatch of its bytes. -/
theorem read_of_flipped {data : Bytes} (is_literal : item.directive = .literal data) :
    (Record.read format.items (.atBit other 0)).outcome =
      .error (.placed (.literalMismatch data
        (other.slice (item.directive.start cursor / 8) data.length)
        (item.directive.start cursor / 8)) item.position) := by
  have length := flipped.length_eq
  have enough := stop_le_of_split items stands reaches
  obtain ⟨front_same, _⟩ :=
    @sameContent_around _ front back item cursor record other stands flipped from_start to_stop
  have clear := (Record.clear_iff (Nat.zero_le _)).mpr ⟨reaches, agrees⟩
  rw [visits_split items stands, List.forall_mem_append, List.forall_mem_cons] at clear
  obtain ⟨front_clear, own_clear, _⟩ := clear
  have different : other.slice (item.directive.start cursor / 8) data.length ≠ data := by
    intro found
    have own := (Directive.obstacle?_eq_none_iff.mp own_clear).2
    dsimp only at own
    rw [is_literal, Directive.Agrees, Directive.toBytes_slice_literal] at own
    refine Directive.slice_ne_of_flipped flipped enough from_start to_stop ?_
    rw [is_literal] at found ⊢
    rw [Directive.slice_literal, found, Directive.slice_literal, own]
  have stopped := Directive.obstacle?_eq_some_iff.mpr
    (.inr ⟨by rwa [length], data, is_literal, different, rfl⟩)
  have front_found (visit : Item × Nat) (member : visit ∈ Layout.visits 0 front) :
      visit.1.directive.obstacle? other visit.2 = none :=
    (Directive.obstacle?_congr length (front_same visit member)).trans (front_clear visit member)
  rw [Record.read_eq_map, Traced.map_eq, Record.readThrough_of_obstacle (valid_items valid)
    (Nat.zero_le _) (visits_split items stands) front_found stopped]
  rfl

end Flipped

/-- The result of `unpack` splits into the payloads in front of a field, its own and those behind
it. One bit flipped in the place of the field changes its own payload only. One bit flipped in a
literal makes `unpack` fail with the mismatch at that literal. -/
theorem unpack_of_flipped (compiled : (compile given).outcome = .ok format)
    (held : buffer.asBytes? = some bytes)
    (unpacked : (BitRecord.unpack given buffer length).outcome = .ok payloads)
    {front back : List Item} {item : Item} {cursor : Nat}
    (items : format.items = front ++ item :: back)
    (stands : Layout.stop 0 (front.map Item.directive) = cursor)
    (other_held : other.asBytes? = some otherBytes)
    (flipped : Bytes.FlippedAt index bytes otherBytes)
    (from_start : item.directive.start cursor ≤ index)
    (to_stop : index < item.directive.stop cursor) :
    (∀ field, item.directive = .field field → field.takesValue = true →
      ∃ before was now after, payloads = before ++ was :: after ∧
        before.length = (Directive.givenFields (front.map Item.directive)).length ∧
        (BitRecord.unpack given other length).outcome = .ok (before ++ now :: after) ∧
        now ≠ was) ∧
    (∀ data, item.directive = .literal data → ∃ cause, cause = .literalMismatch data
        (otherBytes.slice (item.directive.start cursor / 8) data.length)
        (item.directive.start cursor / 8) ∧
      cause.family = .literalMismatch ∧
      (BitRecord.unpack given other length).outcome = .error (.placed cause item.position)) := by
  have valid := valid_of_compile compiled
  obtain ⟨size, asked⟩ := exists_asksFor compiled held unpacked
  obtain ⟨enough, agrees, rfl⟩ := (unpack_succeeds_iff compiled held asked).mp unpacked
  have other_asked : length.AsksFor otherBytes.length size := by
    rwa [flipped.length_eq]
  have cut : (bytes.take size).length = size := by
    rw [List.length_take, Nat.min_eq_left asked.le]
  have reaches : format.bitSize ≤ 8 * (bytes.take size).length := by
    rw [cut]
    exact size_le_iff.mp enough
  apply And.intro
  · intro field is_field takes_value
    have other_agrees := agrees_of_flipped items stands reaches agrees (flipped.take size)
      from_start to_stop is_field
    obtain ⟨before, was, now, after, split, other_split, count, different⟩ :=
      contents_of_flipped items stands valid reaches (flipped.take size) from_start to_stop
        is_field takes_value
    exact ⟨before, was, now, after, split, count,
      (unpack_succeeds_iff compiled other_held other_asked).mpr
        ⟨enough, other_agrees, other_split.symm⟩, different⟩
  · intro data is_literal
    have inside : item.directive.start cursor / 8 + data.length ≤ size := by
      have stopped := stop_le_of_split items stands reaches
      rw [cut, is_literal, Directive.stop, Directive.bitSize] at stopped
      rw [is_literal]
      omega
    refine ⟨_, rfl, rfl, ?_⟩
    rw [unpack_eq_read compiled other_held other_asked, ← Bytes.slice_take inside]
    exact read_of_flipped items stands valid reaches agrees (flipped.take size) from_start to_stop
      is_literal

/-- `unpack` depends on the readable bits of literals and of fields that take a value, and on no
others: it gives the same result on buffers that agree on these. It depends on each of them: one bit
flipped in such a field changes the payload of this field and no other, and one bit flipped in a
literal makes `unpack` fail with the mismatch at that literal. -/
theorem unpack_depends_on_content (compiled : (compile given).outcome = .ok format)
    (held : buffer.asBytes? = some bytes) :
    (∀ (other otherLength : Value) (otherBytes : Bytes), other.asBytes? = some otherBytes →
      Reader.readableSize otherBytes.length otherLength =
        Reader.readableSize bytes.length length →
      (∀ size, Reader.readableSize bytes.length length = .ok size →
        format.AgreeWithin size bytes otherBytes) →
      BitRecord.unpack given other otherLength = BitRecord.unpack given buffer length) ∧
    (∀ (other otherLength : Value) (otherBytes : Bytes) (size otherSize : Nat),
      other.asBytes? = some otherBytes →
      Reader.readableSize bytes.length length = .ok size →
      Reader.readableSize otherBytes.length otherLength = .ok otherSize →
      format.size ≤ size → format.size ≤ otherSize →
      format.AgreeWithin format.size bytes otherBytes →
      BitRecord.unpack given other otherLength = BitRecord.unpack given buffer length) ∧
    (∀ payloads, (BitRecord.unpack given buffer length).outcome = .ok payloads →
      ∀ (front back : List Item) (item : Item) (cursor index : Nat) (other : Value)
        (otherBytes : Bytes),
      format.items = front ++ item :: back → Layout.stop 0 (front.map Item.directive) = cursor →
      other.asBytes? = some otherBytes → Bytes.FlippedAt index bytes otherBytes →
      item.directive.start cursor ≤ index → index < item.directive.stop cursor →
      (∀ field, item.directive = .field field → field.takesValue = true →
        ∃ before was now after, payloads = before ++ was :: after ∧
          before.length = (Directive.givenFields (front.map Item.directive)).length ∧
          (BitRecord.unpack given other length).outcome = .ok (before ++ now :: after) ∧
          now ≠ was) ∧
      (∀ data, item.directive = .literal data → ∃ cause, cause = .literalMismatch data
          (otherBytes.slice (item.directive.start cursor / 8) data.length)
          (item.directive.start cursor / 8) ∧
        cause.family = .literalMismatch ∧
        (BitRecord.unpack given other length).outcome =
          .error (.placed cause item.position))) := by
  refine ⟨fun other otherLength otherBytes other_held alike agree => ?_,
    fun other otherLength otherBytes size otherSize other_held readable other_readable enough
      other_enough agree => ?_,
    fun payloads unpacked front back item cursor index other otherBytes items stands other_held
      flipped from_start to_stop => ?_⟩
  · exact unpack_congr compiled held other_held alike agree
  · exact unpack_congr_of_enough compiled held other_held readable other_readable enough
      other_enough agree
  · exact unpack_of_flipped compiled held unpacked items stands other_held flipped from_start
      to_stop

/-- For `mixed`: ones in the gap, another random bit and a tail leave the result of `unpack` as it
is; a flipped bit of the text changes the text, and a flipped bit of the literal is a mismatch. -/
theorem unpack_depends_on_content_mixed :
    BitRecord.unpack mixed.given (.buffer .bytes [191, 65, 0, 255, 131, 128, 127, 9]) .null =
      BitRecord.unpack mixed.given (.buffer .bytes [160, 65, 128, 255, 131, 128, 0]) .null ∧
    (∃ now, (BitRecord.unpack mixed.given
        (.buffer .bytes [160, 65, 128, 255, 131, 192, 0]) .null).outcome =
          .ok [.integer 160, .integers [1, 255], now] ∧ now ≠ .bytes [7, 0]) ∧
    (BitRecord.unpack mixed.given
        (.buffer .bytes [160, 1, 128, 255, 131, 128, 0]) .null).outcome =
      .error (.placed (.literalMismatch [65] [1] 1) 4) := by
  have held : Value.asBytes? (.buffer .bytes [160, 65, 128, 255, 131, 128, 0]) =
      some [160, 65, 128, 255, 131, 128, 0] := rfl
  have unpacked : (BitRecord.unpack mixed.given
      (.buffer .bytes [160, 65, 128, 255, 131, 128, 0]) .null).outcome =
        .ok [.integer 160, .integers [1, 255], .bytes [7, 0]] :=
    (unpack_succeeds_iff compile_mixed held (.inl ⟨rfl, rfl⟩)).mpr
      ⟨by decide, .cons trivial (.cons rfl (.cons trivial (.cons trivial (.cons trivial .nil)))),
        rfl⟩
  obtain ⟨_, like, single⟩ := @unpack_depends_on_content _ _ .null _ _ compile_mixed held
  have agree : ∀ index < 56, mixed.roles[index]? = some .content →
      (Bits.ofBytes [191, 65, 0, 255, 131, 128, 127, 9])[index]? =
        (Bits.ofBytes [160, 65, 128, 255, 131, 128, 0])[index]? := by
    decide
  refine ⟨?_, ?_, ?_⟩
  · exact like _ .null [191, 65, 0, 255, 131, 128, 127, 9] 7 8 rfl rfl rfl (by decide) (by decide)
      fun index content inside => agree index inside content
  · obtain ⟨text, _⟩ := single _ unpacked (mixed.items.take 4) [] mixed.items[4] 33 41
      (.buffer .bytes [160, 65, 128, 255, 131, 192, 0]) _ rfl rfl rfl rfl (by decide) (by decide)
    obtain ⟨before, was, now, after, split, count, changed, different⟩ := text _ rfl rfl
    obtain ⟨first, second, rfl⟩ := List.length_eq_two.mp count
    obtain ⟨rfl, rfl, rfl, rfl⟩ : Payload.integer 160 = first ∧ Payload.integers [1, 255] = second ∧
      Payload.bytes [7, 0] = was ∧ [] = after := by simpa using split
    exact ⟨now, changed, different⟩
  · obtain ⟨_, rfl, _, refused⟩ := (single _ unpacked (mixed.items.take 1) (mixed.items.drop 2)
      mixed.items[1] 3 9 (.buffer .bytes [160, 1, 128, 255, 131, 128, 0]) _ rfl rfl rfl rfl
      (by decide) (by decide)).2 _ rfl
    exact refused

end Format

end BitRecord
