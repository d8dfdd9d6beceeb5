/-
# When unpacking is refused

`unpack` fails at the first directive with an obstacle, and for nothing else: the
readable bytes end before the directive does, or other bytes stand in the place of
a literal. So it succeeds exactly when there are at least as many readable bytes
as the size of the format and every literal is in its place; the bytes behind the
record are never read. Every failure is stated with its family, its message and
the position of the directive; the exception is `longInteger`, for a request
whose message has too many digits.
-/

import BitRecord.Proofs.Format.Printing
import BitRecord.Proofs.Record.Reading
import BitRecord.Proofs.Record.Writing

namespace BitRecord

namespace Value

/-- Whether a length argument selects `size` of the `capacity` bytes of a buffer: null selects all
of them, an integer its own number up to `capacity`. -/
def AsksFor (length : Value) (capacity size : Nat) : Prop :=
  length = .null ∧ size = capacity ∨ length.count? = some (size : Int) ∧ size ≤ capacity

end Value

namespace Reader

/-- `readableSize` of a length that selects bytes is their number. -/
theorem readableSize_of_asksFor {length : Value} {capacity size : Nat}
    (asked : length.AsksFor capacity size) : readableSize capacity length = .ok size := by
  rcases asked with ⟨rfl, rfl⟩ | ⟨counted, inside⟩
  · rfl
  · obtain ⟨number, known, counts⟩ := Option.bind_eq_some_iff.mp counted
    have accepted : ¬ (number.isLess 0 = true ∨ number.isGreater capacity = true) := by
      rw [Number.isLess_of_count? counts, Number.isGreater_of_count? counts, decide_eq_true_eq,
        decide_eq_true_eq]
      omega
    have given : length ≠ .null := by
      rintro rfl
      contradiction
    rw [readableSize, known]
    · simp only [if_neg accepted, counts, Int.toNat_natCast]
    · exact given

/-- A length with a `readableSize` selects that many bytes. -/
theorem asksFor_of_readableSize {length : Value} {capacity size : Nat}
    (readable : readableSize capacity length = .ok size) : length.AsksFor capacity size := by
  by_cases given : length = .null
  · subst given
    exact .inl ⟨rfl, (Except.ok.inj readable).symm⟩
  · rw [readableSize] at readable
    on_goal 2 => exact given
    cases known : length.number? with
    | none =>
        rw [known] at readable
        contradiction
    | some number =>
        simp only [known] at readable
        split at readable
        · contradiction
        · rename_i accepted
          cases counts : number.count? with
          | none =>
              rw [counts] at readable
              contradiction
          | some count =>
              rw [counts] at readable
              rw [Number.isLess_of_count? counts, Number.isGreater_of_count? counts,
                decide_eq_true_eq, decide_eq_true_eq] at accepted
              obtain rfl := Except.ok.inj readable
              refine .inr ⟨Option.bind_eq_some_iff.mpr ⟨number, known, ?_⟩, by omega⟩
              rw [counts, Int.toNat_of_nonneg (by omega)]

/-- `Reader.ofValue` gives a reader at the start of the selected bytes. -/
theorem ofValue_of_asksFor {buffer length : Value} {bytes : Bytes} {size : Nat}
    (held : buffer.asBytes? = some bytes) (asked : length.AsksFor bytes.length size) :
    ofValue buffer length = .ok (atBit (bytes.take size) 0) := by
  rw [ofValue, held]
  exact congrArg (Except.map fun size => ofBytes (bytes.take size)) (readableSize_of_asksFor asked)

end Reader

theorem Value.AsksFor.le {length : Value} {capacity size : Nat}
    (asked : length.AsksFor capacity size) : size ≤ capacity := by
  rcases asked with ⟨_, rfl⟩ | ⟨_, inside⟩
  · exact Nat.le_refl _
  · exact inside

namespace Directive

/-- Whether a directive is found in a record behind the cursor: the record reaches to its end, and
has the bytes of a literal in their place. -/
def IsFound (directive : Directive) (record : Bytes) (cursor : Nat) : Prop :=
  directive.stop cursor ≤ 8 * record.length ∧
    ∀ data, directive = literal data →
      record.slice (directive.start cursor / 8) data.length = data

/-- The position and the remaining bits at the first request of `stride` bits that exceeds the
record, when requests are made from the start of a directive on. -/
def outOfReach (directive : Directive) (record : Bytes) (cursor : Nat) : Nat × Nat :=
  let rest := 8 * record.length - directive.start cursor
  (directive.start cursor + rest / directive.stride * directive.stride, rest % directive.stride)

/-- The failures of reading a record at a directive, each with its family and its message:
`truncated` when the record ends before the directive, `literalMismatch` when it has other bytes in
the place of a literal. A request of so many bits that the message of `truncated` cannot quote their
number fails with `longInteger`, without a position. -/
inductive Stops (directive : Directive) (record : Bytes) (cursor position : Nat) :
    Family → String → Failure → Prop
  | truncated {reached left : Nat} (missing : 8 * record.length < directive.stop cursor)
      (written : DigitLimit.canWrite directive.stride = true)
      (rest : directive.outOfReach record cursor = (reached, left)) :
      Stops directive record cursor position .truncatedInput
        s!"{directive.stride} bits requested at bit {reached} but only {left} remain"
        ⟨.truncated directive.stride reached left, some position⟩
  | unwritten (missing : 8 * record.length < directive.stop cursor)
      (long : DigitLimit.canWrite directive.stride = false) :
      Stops directive record cursor position .wrongValue DigitLimit.writeMessage
        ⟨.longInteger, none⟩
  | mismatch {data found : Bytes} {byte : Nat} (own : directive = literal data)
      (enough : directive.stop cursor ≤ 8 * record.length)
      (place : byte = directive.start cursor / 8)
      (there : found = record.slice byte data.length) (different : found ≠ data) :
      Stops directive record cursor position .literalMismatch
        ("expected " ++ Quoted.ofBytes data ++ s!" at byte {byte}, found "
          ++ Quoted.ofBytes found)
        ⟨.literalMismatch data found byte, some position⟩

variable {directive : Directive} {record : Bytes} {cursor position : Nat} {family : Family}
  {message : String} {failure : Failure}

theorem Stops.family_eq (stops : directive.Stops record cursor position family message failure) :
    failure.cause.family = family := by
  cases stops <;> rfl

theorem Stops.message_eq (stops : directive.Stops record cursor position family message failure) :
    failure.cause.message = message := by
  cases stops <;> rfl

theorem obstacle?_eq_none_iff_isFound :
    directive.obstacle? record cursor = none ↔ directive.IsFound record cursor := by
  rw [obstacle?_eq_none_iff, IsFound]
  refine and_congr_right fun _ => ?_
  cases directive with
  | field field => exact iff_of_true trivial nofun
  | literal data =>
      rw [Agrees, toBytes_slice_literal]
      exact ⟨fun found other own => by rwa [← Directive.literal.inj own],
        fun found => found data rfl⟩

private theorem shortage_eq :
    (Reader.atBit record (directive.start cursor)).shortage directive.stride =
      (Cause.truncated directive.stride (directive.outOfReach record cursor).1
        (directive.outOfReach record cursor).2).ifWritten
          (DigitLimit.canWrite directive.stride) := by
  rw [Reader.shortage, Reader.remaining_atBit]
  rfl

/-- The failures at a directive are those of its obstacle. -/
theorem stops_iff_obstacle :
    directive.Stops record cursor position failure.cause.family failure.cause.message failure ↔
      ∃ cause, directive.obstacle? record cursor = some cause ∧
        failure = .attributed cause position := by
  apply Iff.intro
  · intro stops
    generalize failure.cause.family = family, failure.cause.message = message at stops
    cases stops with
    | truncated missing written rest =>
        refine ⟨_, obstacle?_eq_some_iff.mpr (.inl ⟨missing, rfl⟩), ?_⟩
        rw [shortage_eq, written, rest]
        rfl
    | unwritten missing long =>
        refine ⟨_, obstacle?_eq_some_iff.mpr (.inl ⟨missing, rfl⟩), ?_⟩
        rw [shortage_eq, long]
        rfl
    | mismatch own enough place there different =>
        subst there place
        exact ⟨_, obstacle?_eq_some_iff.mpr (.inr ⟨enough, _, own, different, rfl⟩), rfl⟩
  · rintro ⟨cause, stopped, rfl⟩
    rcases obstacle?_eq_some_iff.mp stopped with
      ⟨missing, rfl⟩ | ⟨enough, data, own, different, rfl⟩
    · rw [shortage_eq]
      cases written : DigitLimit.canWrite directive.stride with
      | true => exact .truncated missing written rfl
      | false => exact .unwritten missing written
    · exact .mismatch own enough rfl rfl different

end Directive

namespace Record

variable {record : Bytes} {cursor size : Nat} {items : List Item}

/-- A record has no obstacle exactly when it is long enough and has every literal in its place. -/
theorem clear_iff_literals (inside : cursor ≤ 8 * record.length) :
    (∀ visit ∈ Layout.visits cursor items, visit.1.directive.obstacle? record visit.2 = none) ↔
      Layout.stop cursor (items.map Item.directive) ≤ 8 * record.length ∧
      ∀ visit ∈ Layout.visits cursor items, ∀ data, visit.1.directive = .literal data →
        record.slice (visit.1.directive.start visit.2 / 8) data.length = data := by
  apply Iff.intro
  · intro clear
    refine ⟨((clear_iff inside).mp clear).1, fun visit member data literal => ?_⟩
    obtain ⟨_, agrees⟩ := Directive.obstacle?_eq_none_iff.mp (clear visit member)
    rw [literal, Directive.Agrees, Directive.toBytes_slice_literal] at agrees
    rwa [literal]
  · intro parts
    obtain ⟨reaches, found⟩ := parts
    intro visit member
    have own := found visit member
    refine Directive.obstacle?_eq_none_iff.mpr
      ⟨Nat.le_trans (Layout.stop_le_of_mem_visits member) reaches, ?_⟩
    cases directive : visit.1.directive with
    | field field => trivial
    | literal data =>
        rw [Directive.Agrees, Directive.toBytes_slice_literal]
        rw [directive] at own
        exact own data rfl

/-- A walk without an obstacle has not left the record. -/
theorem le_of_reached (inside : cursor ≤ 8 * record.length) {front back : List (Item × Nat)}
    {visit : Item × Nat} (reached : Layout.visits cursor items = front ++ visit :: back)
    (clear : ∀ earlier ∈ front, earlier.1.directive.obstacle? record earlier.2 = none) :
    visit.2 ≤ 8 * record.length := by
  induction items generalizing cursor front with
  | nil => simp [Layout.visits] at reached
  | cons item items ih =>
      rw [Layout.visits] at reached
      cases front with
      | nil =>
          obtain ⟨rfl, _⟩ := List.cons.inj reached
          exact inside
      | cons earlier front =>
          obtain ⟨rfl, later⟩ := List.cons.inj reached
          obtain ⟨first, others⟩ := List.forall_mem_cons.mp clear
          exact ih (Directive.obstacle?_eq_none_iff.mp first).1 later others

/-- The obstacle of a directive does not depend on the bytes behind its end. -/
theorem obstacle?_take {directive : Directive} (reaches : directive.stop cursor ≤ 8 * size)
    (enough : size ≤ record.length) :
    directive.obstacle? (record.take size) cursor = directive.obstacle? record cursor := by
  have cut : (record.take size).length = size := by rw [List.length_take, Nat.min_eq_left enough]
  unfold Directive.obstacle?
  rw [cut, if_neg (Nat.not_lt_of_le reaches), if_neg (by omega)]
  cases directive with
  | field field => rfl
  | literal data =>
      have inside : (Directive.literal data).start cursor / 8 + data.length ≤ size := by
        rw [Directive.stop, Directive.bitSize] at reaches
        omega
      simp only [Bytes.slice_take inside]

/-- The slices do not depend on the bytes behind the last directive. -/
theorem slices_take {directives : List Directive}
    (reaches : Layout.stop cursor directives ≤ 8 * size) :
    Layout.slices (Bits.ofBytes (record.take size)) cursor directives =
      Layout.slices (Bits.ofBytes record) cursor directives := by
  induction directives generalizing cursor with
  | nil => rfl
  | cons directive directives ih =>
      rw [Layout.stop_cons] at reaches
      have own : directive.start cursor + directive.bitSize ≤ 8 * size :=
        Nat.le_trans (Layout.le_stop _ directives) reaches
      rw [Layout.slices, Layout.slices, ih reaches, Bits.ofBytes_take, List.drop_take,
        List.take_take, Nat.min_eq_left (Nat.le_sub_of_add_le' own)]

/-- `Record.read` does not depend on the bytes behind the last directive. -/
theorem read_take (valid : ∀ item ∈ items, item.directive.Valid)
    (reaches : Layout.stop cursor (items.map Item.directive) ≤ 8 * size)
    (enough : size ≤ record.length) :
    read items (.atBit (record.take size) cursor) = read items (.atBit record cursor) := by
  have cut : (record.take size).length = size := by rw [List.length_take, Nat.min_eq_left enough]
  have start := Nat.le_trans (Layout.le_stop cursor _) reaches
  have same {visit : Item × Nat} (member : visit ∈ Layout.visits cursor items) :
      visit.1.directive.obstacle? (record.take size) visit.2 =
        visit.1.directive.obstacle? record visit.2 :=
    obstacle?_take (Nat.le_trans (Layout.stop_le_of_mem_visits member) reaches) enough
  -- Both records have the same obstacles, so the two walks stop at the same item or not at all.
  rw [read_eq_map, read_eq_map]
  rcases clear_or_obstacle record (Layout.visits cursor items) with
    clear | ⟨front, visit, back, cause, reached, clear, stopped⟩
  · rw [readThrough_of_clear valid (by omega) clear,
      readThrough_of_clear valid (by omega) fun _ member => (same member).trans (clear _ member),
      slices_take reaches]
    rfl
  · have front_clear : ∀ earlier ∈ front,
        earlier.1.directive.obstacle? (record.take size) earlier.2 = none := by
      intro earlier member
      exact (same (reached ▸ List.mem_append_left _ member)).trans (clear earlier member)
    have own := same (reached ▸ List.mem_append_right front List.mem_cons_self)
    rw [readThrough_of_obstacle valid (by omega) reached clear stopped,
      readThrough_of_obstacle valid (by omega) reached front_clear (own.trans stopped)]

/-- `Record.read` succeeds exactly when no directive has an obstacle. -/
theorem read_succeeds_iff (valid : ∀ item ∈ items, item.directive.Valid)
    (inside : cursor ≤ 8 * record.length) :
    (∃ payloads, (read items (.atBit record cursor)).outcome = .ok payloads) ↔
      ∀ visit ∈ Layout.visits cursor items, visit.1.directive.obstacle? record visit.2 = none := by
  rw [clear_iff inside]
  apply Iff.intro
  · intro success
    obtain ⟨payloads, read⟩ := success
    obtain ⟨reaches, agree, _⟩ := (read_outcome_eq_ok_iff valid inside).mp read
    exact ⟨reaches, agree⟩
  · intro parts
    obtain ⟨reaches, agree⟩ := parts
    exact ⟨_, (read_outcome_eq_ok_iff valid inside).mpr ⟨reaches, agree, rfl⟩⟩

/-- `Record.read` fails exactly with a failure of `Stops` at the first item that is not found. -/
theorem read_outcome_eq_error_iff (valid : ∀ item ∈ items, item.directive.Valid)
    (inside : cursor ≤ 8 * record.length) {failure : Failure} :
    (read items (.atBit record cursor)).outcome = .error failure ↔
      ∃ front visit back, Layout.visits cursor items = front ++ visit :: back ∧
        (∀ earlier ∈ front, earlier.1.directive.IsFound record earlier.2) ∧
        visit.1.directive.Stops record visit.2 visit.1.position failure.cause.family
          failure.cause.message failure := by
  simp only [Directive.stops_iff_obstacle, ← Directive.obstacle?_eq_none_iff_isFound]
  rw [read_eq_map, Traced.map_eq]
  apply Iff.intro
  · intro refused
    rcases clear_or_obstacle record (Layout.visits cursor items) with
      clear | ⟨front, visit, back, cause, reached, clear, stopped⟩
    · rw [readThrough_of_clear valid inside clear] at refused
      contradiction
    · rw [readThrough_of_obstacle valid inside reached clear stopped] at refused
      exact ⟨front, visit, back, reached, clear, cause, stopped, (Except.error.inj refused).symm⟩
  · intro first
    obtain ⟨front, visit, back, reached, clear, cause, stopped, rfl⟩ := first
    rw [readThrough_of_obstacle valid inside reached clear stopped]
    rfl

end Record

namespace Format

variable {given buffer length : Value} {format : Format} {bytes : Bytes} {size : Nat}

/-- `unpack` is `Record.read` of the items of the format on the selected bytes. -/
theorem unpack_eq_read (compiled : (compile given).outcome = .ok format)
    (held : buffer.asBytes? = some bytes) (asked : length.AsksFor bytes.length size) :
    BitRecord.unpack given buffer length =
      ⟨(compile given).events ++ (Record.read format.items (.atBit (bytes.take size) 0)).events,
        (Record.read format.items (.atBit (bytes.take size) 0)).outcome⟩ := by
  rw [BitRecord.unpack, Traced.eq_of_outcome compiled, Traced.ok_bind,
    unpack_of_reader (Reader.ofValue_of_asksFor held asked)]

/-- `unpack` succeeds exactly when the selected bytes reach to the end of the last directive and
have every literal in its place, with the contents of the places. -/
theorem unpack_succeeds_iff (compiled : (compile given).outcome = .ok format)
    (held : buffer.asBytes? = some bytes) (asked : length.AsksFor bytes.length size)
    {payloads : List Payload} :
    (BitRecord.unpack given buffer length).outcome = .ok payloads ↔
      format.size ≤ size ∧
      List.Forall₂ Directive.Agrees format.directives (format.slices (bytes.take size)) ∧
      payloads = Record.contents format.directives (format.slices (bytes.take size)) := by
  have cut : (bytes.take size).length = size := by
    rw [List.length_take, Nat.min_eq_left asked.le]
  have read := @Record.read_outcome_eq_ok_iff (bytes.take size) 0 format.items
    (valid_items (valid_of_compile compiled)) (Nat.zero_le _) payloads
  rw [cut] at read
  rw [unpack_eq_read compiled held asked]
  exact read.trans (and_congr_left' size_le_iff.symm)

/-- When `unpack` succeeds, its length selects bytes of the buffer. -/
theorem exists_asksFor (compiled : (compile given).outcome = .ok format)
    (held : buffer.asBytes? = some bytes) {payloads : List Payload}
    (unpacked : (BitRecord.unpack given buffer length).outcome = .ok payloads) :
    ∃ size, length.AsksFor bytes.length size := by
  rw [unpack_of_compile compiled] at unpacked
  obtain ⟨_, accepted, _⟩ :=
    (unpack_outcome_eq_ok_iff (valid_of_compile compiled)).mp unpacked
  obtain ⟨_, size, other_held, readable, _⟩ := Reader.ofValue_eq_ok accepted
  cases held.symm.trans other_held
  exact ⟨size, Reader.asksFor_of_readableSize readable⟩

/-- `Record.read` on enough bytes for the format depends on those of its size only. -/
theorem read_of_size_le (valid : ∀ directive ∈ format.directives, directive.Valid)
    (inside : size ≤ bytes.length) (enough : format.size ≤ size) :
    Record.read format.items (.atBit (bytes.take size) 0) =
      Record.read format.items (.atBit (bytes.take format.size) 0) := by
  have whole := size_le_iff.mp (Nat.le_refl format.size)
  have cut := @Record.read_take (bytes.take size) 0 format.size format.items (valid_items valid)
    whole (by rw [List.length_take]; omega)
  rw [← cut, List.take_take, Nat.min_eq_left enough]

/-- `unpack` succeeds exactly when the selected bytes are enough for the format and have every
literal in its place. Otherwise it fails at the first directive that is not found, with the family,
the message and the position of `Directive.Stops`. Alignment in front of a directive never fails
once all earlier directives are found, and the bytes behind the record make no difference. -/
theorem unpack_outcome_iff (compiled : (compile given).outcome = .ok format)
    (held : buffer.asBytes? = some bytes) (asked : length.AsksFor bytes.length size) :
    ((∃ payloads, (BitRecord.unpack given buffer length).outcome = .ok payloads) ↔
      format.size ≤ size ∧
      ∀ visit ∈ Layout.visits 0 format.items, ∀ data, visit.1.directive = .literal data →
        bytes.slice (visit.1.directive.start visit.2 / 8) data.length = data) ∧
    (∀ failure, (BitRecord.unpack given buffer length).outcome = .error failure ↔
      ∃ front visit back, Layout.visits 0 format.items = front ++ visit :: back ∧
        (∀ earlier ∈ front, earlier.1.directive.IsFound (bytes.take size) earlier.2) ∧
        visit.1.directive.Stops (bytes.take size) visit.2 visit.1.position failure.cause.family
          failure.cause.message failure) ∧
    (∀ front visit back, Layout.visits 0 format.items = front ++ visit :: back →
      (∀ earlier ∈ front, earlier.1.directive.IsFound (bytes.take size) earlier.2) →
      (Reader.atBit (bytes.take size) visit.2).align =
        .ok (.atBit (bytes.take size) (visit.2 + toBoundary visit.2))) ∧
    (format.size ≤ size → ∀ (other otherLength : Value) (otherBytes : Bytes) (otherSize : Nat),
      other.asBytes? = some otherBytes → otherLength.AsksFor otherBytes.length otherSize →
      format.size ≤ otherSize → otherBytes.take format.size = bytes.take format.size →
      BitRecord.unpack given other otherLength = BitRecord.unpack given buffer length) := by
  have directives_valid := valid_of_compile compiled
  have valid := valid_items directives_valid
  have record_length : (bytes.take size).length = size := by
    rw [List.length_take, Nat.min_eq_left asked.le]
  refine ⟨?_, fun failure => ?_, fun front visit back reached clear => ?_, ?_⟩
  · have reaches : Layout.stop 0 (format.items.map Item.directive) ≤ 8 * (bytes.take size).length ↔
        format.size ≤ size := by
      change format.bitSize ≤ 8 * (bytes.take size).length ↔ format.size ≤ size
      rw [record_length, size_le_iff]
    rw [unpack_eq_read compiled held asked, Record.read_succeeds_iff valid (Nat.zero_le _),
      Record.clear_iff_literals (Nat.zero_le _), reaches]
    refine and_congr_right fun enough => forall₂_congr fun visit member =>
      forall₂_congr fun data literal => ?_
    have inside : visit.1.directive.start visit.2 / 8 + data.length ≤ size := by
      have own : visit.1.directive.stop visit.2 ≤ 8 * size :=
        Nat.le_trans (Layout.stop_le_of_mem_visits member) (size_le_iff.mp enough)
      rw [literal, Directive.stop, Directive.bitSize] at own
      rw [literal]
      omega
    rw [Bytes.slice_take inside]
  · rw [unpack_eq_read compiled held asked]
    exact Record.read_outcome_eq_error_iff valid (Nat.zero_le _)
  · refine Reader.align_atBit
      (Record.le_of_reached (Nat.zero_le _) reached fun earlier member => ?_)
    exact Directive.obstacle?_eq_none_iff_isFound.mpr (clear earlier member)
  · intro enough other otherLength otherBytes otherSize otherHeld otherAsked otherEnough same
    rw [unpack_eq_read compiled held asked, unpack_eq_read compiled otherHeld otherAsked,
      read_of_size_le directives_valid asked.le enough,
      read_of_size_le directives_valid otherAsked.le otherEnough, same]

/-- Three of seven bytes are selected. The literal in the second one has another byte, and that is
the failure although the bytes end before the array. -/
theorem unpack_outcome_iff_mixed :
    ∃ failure, (BitRecord.unpack mixed.given (.buffer .byteArray [160, 66, 0, 255, 131, 128, 0])
        (.integer 3)).outcome = .error failure ∧
      failure.cause.family = .literalMismatch ∧
      failure.text = "expected b'A' at byte 1, found b'B' (at offset 4)" := by
  have refused := (unpack_outcome_iff compile_mixed
    (show (Value.buffer .byteArray [160, 66, 0, 255, 131, 128, 0]).asBytes? =
      some [160, 66, 0, 255, 131, 128, 0] from rfl)
    (show (Value.integer 3).AsksFor 7 3 from .inr ⟨rfl, by decide⟩)).2.1
  refine ⟨⟨.literalMismatch [65] [66] 1, some 4⟩, (refused _).mpr
    ⟨[(mixed.items[0], 0)], (mixed.items[1], 3), (Layout.visits 0 mixed.items).drop 2, rfl, ?_, ?_⟩,
    rfl, by decide +kernel⟩
  · refine List.forall_mem_singleton.mpr ⟨by decide, nofun⟩
  · exact .mismatch rfl (by decide) rfl rfl (by decide)

/-- On the empty record a string whose number of bits is beyond the digit limit fails with
`longInteger`, without a position. -/
private theorem stops_string {count position : Nat} (some_bytes : 0 < count)
    (long : DigitLimit.bound ≤ 8 * count) :
    (Directive.field ⟨.string, count, .native, false, none, .scalar⟩).Stops [] 0 position
      .wrongValue DigitLimit.writeMessage ⟨.longInteger, none⟩ := by
  have missing : 8 * ([] : Bytes).length <
      (Directive.field ⟨.string, count, .native, false, none, .scalar⟩).stop 0 := by
    change 0 < 0 + 8 * count
    omega
  exact .unwritten missing (DigitLimit.canWrite_natCast_eq_false_iff.mpr long)

/-- On the empty buffer `unpack` of a string whose number of bits is beyond the digit limit fails
with `longInteger`, which is not of the family of truncated input. -/
theorem unpack_outcome_iff_unwritten :
    let field : Field := ⟨.string, DigitLimit.bound - 1, .native, false, none, .scalar⟩
    (BitRecord.unpack (.text (print [.field field])) (.buffer .bytes []) .null).outcome =
      .error ⟨.longInteger, none⟩ ∧ Cause.longInteger.family = .wrongValue := by
  intro field
  have large := DigitLimit.one_lt_bound
  have some_bytes : 0 < DigitLimit.bound - 1 := Nat.sub_pos_of_lt large
  have valid : field.Valid := ⟨some_bytes, fun _ => ⟨rfl, rfl⟩, nofun, nofun⟩
  obtain ⟨format, compiled, own⟩ := Field.exists_format valid (Nat.sub_one_lt_of_lt large)
  obtain ⟨item, items, directive⟩ := List.map_eq_singleton_iff.mp own
  have held : (Value.buffer .bytes []).asBytes? = some [] := rfl
  rw [unpack_eq_read compiled held (.inl ⟨rfl, rfl⟩)]
  refine ⟨(Record.read_outcome_eq_error_iff (valid_items (valid_of_compile compiled))
    (Nat.zero_le _)).mpr ⟨[], (item, 0), [], ?_, nofun, ?_⟩, rfl⟩
  · rw [items]
    rfl
  · rw [directive]
    exact stops_string some_bytes (by omega)

end Format

end BitRecord
