/-
# Reading a record

`Format.read` has two ways to fail at a directive: the record ends before the
directive does, or other bytes stand in the place of a literal; `Reader.align`
never fails on a record of whole bytes. So it succeeds exactly when the record
reaches to the end of the last directive and has every literal in its place, and
it then gives the content of every field that takes a value. Otherwise it fails
at the first directive with an obstacle. The bits in front of a byte boundary and
those behind the last directive are not read. Only the `longInteger` failure, for
a shortage whose message has too many digits, has no position and leaves no
event.
-/

import BitRecord.Proofs.Bits.Slices
import BitRecord.Proofs.Codec.Decoding
import BitRecord.Proofs.Format.Items
import BitRecord.Proofs.Record.Placement
import BitRecord.Record

namespace BitRecord

namespace Reader

/-- The `Reader` over the bits of `record` whose position is `cursor`. -/
def atBit (record : Bytes) (cursor : Nat) : Reader := ⟨(Bits.ofBytes record).toArray, cursor⟩

variable {record : Bytes} {cursor : Nat}

theorem rest_atBit : (atBit record cursor).rest = (Bits.ofBytes record).drop cursor := rfl

theorem remaining_atBit : (atBit record cursor).remaining = 8 * record.length - cursor :=
  congrArg (· - cursor) (Bits.length_ofBytes record)

/-- `Reader.align` succeeds at any position of a record of whole bytes. -/
theorem align_atBit (inside : cursor ≤ 8 * record.length) :
    (atBit record cursor).align = .ok (atBit record (cursor + toBoundary cursor)) := by
  apply align_of_le
  have boundary : cursor + toBoundary cursor ≤ 8 * record.length := by
    unfold toBoundary
    omega
  rw [remaining_atBit]
  exact Nat.le_sub_of_add_le' boundary

end Reader

namespace Directive

/-- The bits of `record` from the start of `directive` to its stop. -/
def slice (directive : Directive) (record : Bytes) (cursor : Nat) : Bits :=
  ((Bits.ofBytes record).drop (directive.start cursor)).take directive.bitSize

/-- The number of bits in the first `Reader.take` of a directive. -/
def stride : Directive → Nat
  | field f => f.stride
  | literal data => 8 * data.length

/-- The cause for which `directive` cannot be read from `cursor` on, if any: the record ends before
the directive does, or other bytes stand in the place of a literal. -/
def obstacle? (directive : Directive) (record : Bytes) (cursor : Nat) : Option Cause :=
  if 8 * record.length < directive.stop cursor then
    some ((Reader.atBit record (directive.start cursor)).shortage directive.stride)
  else
    match directive with
    | field _ => none
    | literal data =>
        let byte := (literal data).start cursor / 8
        let found := record.slice byte data.length
        if found = data then none else some (.literalMismatch data found byte)

variable {directive : Directive} {record : Bytes} {cursor : Nat}

/-- The slice of a literal, as bytes, is the part of the record from its start on. -/
theorem toBytes_slice_literal (data record : Bytes) (cursor : Nat) :
    ((literal data).slice record cursor).toBytes =
      record.slice ((literal data).start cursor / 8) data.length := by
  rw [← Bits.toBytes_slice, eight_mul_start_literal]
  rfl

/-- `obstacle?` is `none` exactly when the record reaches to the stop of the directive and, for a
literal, has its bytes in its place. -/
theorem obstacle?_eq_none_iff :
    directive.obstacle? record cursor = none ↔
      directive.stop cursor ≤ 8 * record.length ∧
        directive.Agrees (directive.slice record cursor) := by
  unfold obstacle?
  by_cases missing : 8 * record.length < directive.stop cursor
  · simp [missing, Nat.not_le_of_lt missing]
  · have enough := Nat.le_of_not_lt missing
    rw [if_neg missing]
    cases directive with
    | field field => exact iff_of_true rfl ⟨enough, trivial⟩
    | literal data => simp [Agrees, enough, toBytes_slice_literal]

/-- The two causes of `obstacle?`: a shortage when the record ends too early, and otherwise a
mismatch of a literal with the bytes in its place. -/
theorem obstacle?_eq_some_iff {cause : Cause} :
    directive.obstacle? record cursor = some cause ↔
      8 * record.length < directive.stop cursor ∧
        cause = (Reader.atBit record (directive.start cursor)).shortage directive.stride ∨
      directive.stop cursor ≤ 8 * record.length ∧ ∃ data, directive = literal data ∧
        record.slice (directive.start cursor / 8) data.length ≠ data ∧
        cause = .literalMismatch data (record.slice (directive.start cursor / 8) data.length)
          (directive.start cursor / 8) := by
  unfold obstacle?
  by_cases missing : 8 * record.length < directive.stop cursor
  · simp [missing, Nat.not_le_of_lt missing, eq_comm]
  · have enough := Nat.le_of_not_lt missing
    rw [if_neg missing]
    cases directive with
    | field field => simp [missing]
    | literal data => simp [missing, enough, eq_comm]

/-- A cause of `obstacle?` is located, or it is `longInteger` for the message of a shortage. -/
theorem isLocated_or_eq_longInteger {cause : Cause}
    (stopped : directive.obstacle? record cursor = some cause) :
    cause.family.isLocated = true ∨ cause = .longInteger := by
  rcases obstacle?_eq_some_iff.mp stopped with ⟨_, rfl⟩ | ⟨_, data, _, _, rfl⟩
  · rw [Reader.shortage]
    cases DigitLimit.canWrite directive.stride with
    | true => exact .inl rfl
    | false => exact .inr rfl
  · exact .inl rfl

end Directive

/-- The failure for `cause` at `position`, which it carries only when the cause is located. -/
def Failure.attributed (cause : Cause) (position : Nat) : Failure :=
  (Failure.unplaced cause).orPlacedAt position

theorem Failure.attributed_of_located {cause : Cause} (located : cause.family.isLocated = true)
    (position : Nat) : Failure.attributed cause position = .placed cause position :=
  if_pos ⟨located, rfl⟩

@[simp]
theorem Failure.cause_attributed (cause : Cause) (position : Nat) :
    (Failure.attributed cause position).cause = cause := by
  rw [attributed, orPlacedAt]
  split <;> rfl

/-- The failure of an item as `Item.decode` raises it: a mismatch with its position, any other cause
without one. -/
def Item.report (item : Item) : Cause → Failure
  | .literalMismatch expected found byte =>
      .placed (.literalMismatch expected found byte) item.position
  | cause => .unplaced cause

namespace Item

variable {item : Item} {record : Bytes} {cursor : Nat}

/-- The failure of `Reader.take` carries no position. -/
theorem report_shortage (item : Item) (reader : Reader) (stride : Nat) :
    item.report (reader.shortage stride) = .unplaced (reader.shortage stride) := by
  rw [Reader.shortage]
  cases DigitLimit.canWrite stride <;> rfl

/-- `orPlacedAt` with the position of the item turns `report` into `attributed`. -/
theorem orPlacedAt_report (item : Item) (cause : Cause) :
    (item.report cause).orPlacedAt item.position = .attributed cause item.position := by
  cases cause <;> rfl

/-- `Reader.align` at the position of the event of a literal moves to its start. -/
private theorem align_turn_literal (data : Bytes) (inside : cursor ≤ 8 * record.length) :
    (Reader.atBit record ((Directive.literal data).turn cursor)).align =
      .ok (.atBit record ((Directive.literal data).start cursor)) :=
  Reader.align_atBit inside

private theorem bitSize_le_remaining {directive : Directive}
    (enough : directive.stop cursor ≤ 8 * record.length) :
    directive.bitSize ≤ (Reader.atBit record (directive.start cursor)).remaining := by
  rw [Reader.remaining_atBit]
  exact Nat.le_sub_of_add_le' enough

private theorem remaining_lt_bitSize {directive : Directive} (inside : cursor ≤ 8 * record.length)
    (missing : 8 * record.length < directive.stop cursor) :
    (Reader.atBit record (directive.start cursor)).remaining < directive.bitSize := by
  have reached := directive.start_le_of_le inside
  rw [Directive.stop] at missing
  rw [Reader.remaining_atBit]
  omega

/-- `Item.decode` on a literal within the record: success with no payload, or the mismatch. -/
private theorem decode_literal (place : Nat) {data : Bytes} (inside : cursor ≤ 8 * record.length)
    (enough : (Directive.literal data).stop cursor ≤ 8 * record.length) :
    (Item.mk place (.literal data)).decode (.atBit record ((Directive.literal data).turn cursor)) =
      let byte := (Directive.literal data).start cursor / 8
      let found := record.slice byte data.length
      if found = data then .ok (none, .atBit record ((Directive.literal data).stop cursor))
      else .error (.placed (.literalMismatch data found byte) place) := by
  have taken := Reader.takeBytes_of_le (bitSize_le_remaining enough)
  have found := Directive.toBytes_slice_literal data record cursor
  rw [Directive.slice, ← Reader.rest_atBit, Directive.bitSize] at found
  rw [found] at taken
  simp only [decode, align_turn_literal data inside, Except.mapError, bind, Except.bind, taken]
  rfl

/-- Without an obstacle `Item.decode` gives the content of the slice, and the reader stands at the
stop of the directive. -/
theorem decode_of_clear (valid : item.directive.Valid) (inside : cursor ≤ 8 * record.length)
    (clear : item.directive.obstacle? record cursor = none) :
    item.decode (.atBit record (item.directive.turn cursor)) =
      .ok (item.directive.content? (item.directive.slice record cursor),
        .atBit record (item.directive.stop cursor)) := by
  obtain ⟨enough, agrees⟩ := Directive.obstacle?_eq_none_iff.mp clear
  obtain ⟨place, directive⟩ := item
  cases directive with
  | field field =>
      have decoded := Codec.decodeField_of_le valid (bitSize_le_remaining enough)
      exact congrArg (Except.mapError Failure.unplaced) decoded
  | literal data =>
      rw [Directive.Agrees, Directive.toBytes_slice_literal] at agrees
      exact (decode_literal place inside enough).trans (if_pos agrees)

/-- With an obstacle `Item.decode` fails with its `report`. -/
theorem decode_of_obstacle (inside : cursor ≤ 8 * record.length) {cause : Cause}
    (stopped : item.directive.obstacle? record cursor = some cause) :
    item.decode (.atBit record (item.directive.turn cursor)) = .error (item.report cause) := by
  obtain ⟨place, directive⟩ := item
  rcases Directive.obstacle?_eq_some_iff.mp stopped with
    ⟨missing, rfl⟩ | ⟨enough, data, rfl, different, rfl⟩
  · have lacking := remaining_lt_bitSize inside missing
    rw [report_shortage]
    cases directive with
    | field field =>
        exact congrArg (Except.mapError Failure.unplaced) (Codec.decodeField_of_lt lacking)
    | literal data =>
        rw [Directive.bitSize] at lacking
        have refused := Reader.takeBytes_of_lt lacking
        rw [← Reader.shortage_of_lt lacking] at refused
        simp only [decode, align_turn_literal data inside, Except.mapError, bind, Except.bind,
          refused]
        rfl
  · exact (decode_literal place inside enough).trans (if_neg different)

end Item

namespace Record

/-- The payloads of the directives that have content, from one body of bits for each directive. -/
def contents : List Directive → (bodies : List Bits) → List Payload
  | directive :: directives, body :: bodies =>
      (directive.content? body).toList ++ contents directives bodies
  | _, _ => []

/-- The loop of `Format.read`, with the reader after the last item as a second result. -/
def readThrough : List Item → Reader → Traced (List Payload × Reader)
  | [], reader => .pure ([], reader)
  | item :: items, reader => do
      let (payload, reader) ← readItem item reader
      let (payloads, reader) ← readThrough items reader
      return (payload.toList ++ payloads, reader)

/-- `read` is `readThrough` without the reader. -/
theorem read_eq_map (items : List Item) (reader : Reader) :
    read items reader = Prod.fst <$> readThrough items reader := by
  induction items generalizing reader with
  | nil => rfl
  | cons item items ih => simp [read, readThrough, ih]

/-- The `unpacking` event of an item at a cursor. -/
def unpackingEvent (visit : Item × Nat) : Event :=
  .unpacking visit.1.directive (visit.1.directive.turn visit.2)

variable {record : Bytes} {cursor : Nat} {item : Item} {items : List Item}

/-- `approach` succeeds at any position of a record of whole bytes. -/
theorem approach_atBit (inside : cursor ≤ 8 * record.length) (item : Item) :
    approach item (.atBit record cursor) = .ok (.atBit record (item.directive.turn cursor)) := by
  rw [approach, Directive.turn]
  split
  · exact Reader.align_atBit inside
  · rfl

theorem readItem_of_clear (valid : item.directive.Valid) (inside : cursor ≤ 8 * record.length)
    (clear : item.directive.obstacle? record cursor = none) :
    readItem item (.atBit record cursor) =
      ⟨[unpackingEvent (item, cursor)],
        .ok (item.directive.content? (item.directive.slice record cursor),
          .atBit record (item.directive.stop cursor))⟩ := by
  rw [readItem, approach_atBit inside]
  simp only [Item.decode_of_clear valid inside clear]
  rfl

theorem readItem_of_obstacle (inside : cursor ≤ 8 * record.length) {cause : Cause}
    (stopped : item.directive.obstacle? record cursor = some cause) :
    readItem item (.atBit record cursor) =
      ⟨unpackingEvent (item, cursor) :: reportFailure item (item.report cause),
        .error (.attributed cause item.position)⟩ := by
  rw [readItem, approach_atBit inside]
  simp only [Item.decode_of_obstacle inside stopped, Item.orPlacedAt_report]
  rfl

/-- Either no visit has an obstacle, or there is a first one that has. -/
theorem clear_or_obstacle (record : Bytes) (visits : List (Item × Nat)) :
    (∀ visit ∈ visits, visit.1.directive.obstacle? record visit.2 = none) ∨
      ∃ front visit back cause, visits = front ++ visit :: back ∧
        (∀ earlier ∈ front, earlier.1.directive.obstacle? record earlier.2 = none) ∧
        visit.1.directive.obstacle? record visit.2 = some cause := by
  cases first : visits.findSome? fun visit => visit.1.directive.obstacle? record visit.2 with
  | none => exact .inl (List.findSome?_eq_none_iff.mp first)
  | some cause =>
      obtain ⟨front, visit, back, split, stopped, clear⟩ := List.findSome?_eq_some_iff.mp first
      exact .inr ⟨front, visit, back, cause, split, clear, stopped⟩

/-- No visit from `cursor` on has an obstacle exactly when the record reaches to the end of the last
directive and has every literal in its place. -/
theorem clear_iff (inside : cursor ≤ 8 * record.length) :
    (∀ visit ∈ Layout.visits cursor items, visit.1.directive.obstacle? record visit.2 = none) ↔
      Layout.stop cursor (items.map Item.directive) ≤ 8 * record.length ∧
      List.Forall₂ Directive.Agrees (items.map Item.directive)
        (Layout.slices (Bits.ofBytes record) cursor (items.map Item.directive)) := by
  induction items generalizing cursor with
  | nil => simpa [Layout.visits, Layout.slices] using inside
  | cons item items ih =>
      rw [Layout.visits, List.forall_mem_cons, Directive.obstacle?_eq_none_iff, List.map_cons,
        Layout.slices, List.forall₂_cons, Layout.stop_cons]
      apply Iff.intro
      · intro clear
        obtain ⟨⟨enough, agrees⟩, later⟩ := clear
        obtain ⟨reached, others⟩ := (ih enough).mp later
        exact ⟨reached, agrees, others⟩
      · intro parts
        obtain ⟨reached, agrees, others⟩ := parts
        have enough := Nat.le_trans (Layout.le_stop _ _) reached
        exact ⟨⟨enough, agrees⟩, (ih enough).mpr ⟨reached, others⟩⟩

/-- Without obstacles `readThrough` gives the contents of all items and the reader at the stop. -/
theorem readThrough_of_clear (valid : ∀ item ∈ items, item.directive.Valid)
    (inside : cursor ≤ 8 * record.length)
    (clear : ∀ visit ∈ Layout.visits cursor items,
      visit.1.directive.obstacle? record visit.2 = none) :
    readThrough items (.atBit record cursor) =
      ⟨(Layout.visits cursor items).map unpackingEvent,
        .ok (contents (items.map Item.directive)
            (Layout.slices (Bits.ofBytes record) cursor (items.map Item.directive)),
          .atBit record (Layout.stop cursor (items.map Item.directive)))⟩ := by
  induction items generalizing cursor with
  | nil => rfl
  | cons item items ih =>
      obtain ⟨first_valid, others_valid⟩ := List.forall_mem_cons.mp valid
      obtain ⟨first, others⟩ := List.forall_mem_cons.mp clear
      have enough := (Directive.obstacle?_eq_none_iff.mp first).1
      have later := @ih (item.directive.stop cursor) others_valid enough others
      rw [readThrough, readItem_of_clear first_valid inside first, Traced.ok_bind]
      dsimp only
      rw [later, Traced.ok_bind, Traced.events_pure, List.append_nil]
      rfl

/-- `readThrough` fails at the first visit with an obstacle, after the events of the visits up to
it. -/
theorem readThrough_of_obstacle (valid : ∀ item ∈ items, item.directive.Valid)
    (inside : cursor ≤ 8 * record.length) {front back : List (Item × Nat)} {visit : Item × Nat}
    {cause : Cause} (reached : Layout.visits cursor items = front ++ visit :: back)
    (clear : ∀ earlier ∈ front, earlier.1.directive.obstacle? record earlier.2 = none)
    (stopped : visit.1.directive.obstacle? record visit.2 = some cause) :
    readThrough items (.atBit record cursor) =
      ⟨(front ++ [visit]).map unpackingEvent ++ reportFailure visit.1 (visit.1.report cause),
        .error (.attributed cause visit.1.position)⟩ := by
  induction items generalizing cursor front with
  | nil => simp [Layout.visits] at reached
  | cons item items ih =>
      obtain ⟨first_valid, others_valid⟩ := List.forall_mem_cons.mp valid
      rw [Layout.visits] at reached
      cases front with
      | nil =>
          obtain ⟨rfl, _⟩ := List.cons.inj reached
          rw [readThrough, readItem_of_obstacle inside stopped]
          rfl
      | cons earlier front =>
          obtain ⟨rfl, later⟩ := List.cons.inj reached
          obtain ⟨first, others⟩ := List.forall_mem_cons.mp clear
          have enough := (Directive.obstacle?_eq_none_iff.mp first).1
          have refused := @ih (item.directive.stop cursor) others_valid enough front later others
          rw [readThrough, readItem_of_clear first_valid inside first, Traced.ok_bind]
          dsimp only
          rw [refused]
          rfl

/-- `read` succeeds exactly when the record reaches to the end of the last directive and has every
literal in its place; it gives the contents of the slices. -/
theorem read_outcome_eq_ok_iff (valid : ∀ item ∈ items, item.directive.Valid)
    (inside : cursor ≤ 8 * record.length) {payloads : List Payload} :
    (read items (.atBit record cursor)).outcome = .ok payloads ↔
      Layout.stop cursor (items.map Item.directive) ≤ 8 * record.length ∧
      List.Forall₂ Directive.Agrees (items.map Item.directive)
        (Layout.slices (Bits.ofBytes record) cursor (items.map Item.directive)) ∧
      payloads = contents (items.map Item.directive)
        (Layout.slices (Bits.ofBytes record) cursor (items.map Item.directive)) := by
  rw [read_eq_map, Traced.map_eq, ← and_assoc, ← clear_iff inside]
  rcases clear_or_obstacle record (Layout.visits cursor items) with
    clear | ⟨front, visit, back, cause, reached, clear, stopped⟩
  · rw [readThrough_of_clear valid inside clear]
    exact Iff.trans (by rw [Except.map, Except.ok.injEq, eq_comm]) (and_iff_right clear).symm
  · rw [readThrough_of_obstacle valid inside reached clear stopped]
    apply iff_of_false
    · intro success
      contradiction
    · intro parts
      have free := parts.1 visit (reached ▸ List.mem_append_right front List.mem_cons_self)
      rw [stopped] at free
      contradiction

end Record

namespace Format

/-- The slices of the bits of `record` for the directives of `format`. -/
def slices (format : Format) (record : Bytes) : List Bits :=
  Layout.slices (Bits.ofBytes record) 0 format.directives

/-- `unpack` is `read` on the reader that `Reader.of` gives for `buffer` and `length`. -/
theorem unpack_of_reader {buffer length : Value} {reader : Reader}
    (readable : Reader.ofValue buffer length = .ok reader) (format : Format) :
    format.unpack buffer length = Record.read format.items reader := by
  rw [unpack, readable, Traced.ofResult_ok_bind]

/-- `unpack` succeeds exactly when the readable bytes reach to the end of the last directive and
have every literal in its place; it gives the contents of the slices. -/
theorem unpack_outcome_eq_ok_iff {format : Format} {buffer length : Value} {payloads : List Payload}
    (valid : ∀ directive ∈ format.directives, directive.Valid) :
    (format.unpack buffer length).outcome = .ok payloads ↔
      ∃ record, Reader.ofValue buffer length = .ok (Reader.ofBytes record) ∧
        format.size ≤ record.length ∧
        List.Forall₂ Directive.Agrees format.directives (format.slices record) ∧
        payloads = Record.contents format.directives (format.slices record) := by
  have from_start (record : Bytes) :
      (Record.read format.items (Reader.ofBytes record)).outcome = .ok payloads ↔
        format.size ≤ record.length ∧
        List.Forall₂ Directive.Agrees format.directives (format.slices record) ∧
        payloads = Record.contents format.directives (format.slices record) := by
    have read := @Record.read_outcome_eq_ok_iff record 0 format.items
      (valid_items valid) (Nat.zero_le _) payloads
    exact read.trans (and_congr_left' size_le_iff.symm)
  rw [unpack, Traced.outcome_bind_eq_ok_iff]
  apply Iff.intro
  · intro unpacked
    obtain ⟨reader, readable, success⟩ := unpacked
    have accepted := Traced.outcome_ofResult_eq_ok_iff.mp readable
    obtain ⟨bytes, size, _, _, rfl⟩ := Reader.ofValue_eq_ok accepted
    exact ⟨_, accepted, (from_start _).mp success⟩
  · intro found
    obtain ⟨record, accepted, parts⟩ := found
    exact ⟨_, Traced.outcome_ofResult_eq_ok_iff.mpr accepted, (from_start record).mpr parts⟩

end Format

end BitRecord
