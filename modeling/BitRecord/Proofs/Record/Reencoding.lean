/-
# Unpacking and packing again

`pack` accepts the result of `unpack`. The new record has the same bits as the
buffer wherever these belong to a literal or to a field that takes a value, since
both use the same places and the image of a payload is the bits that it was read
from. All other bits have the pattern that their `Role` prescribes, so a buffer
with these patterns is equal to the new record.
-/

import BitRecord.Proofs.Record.Reading
import BitRecord.Proofs.Record.Writing

namespace BitRecord

/-- Whether a bit keeps its role: content is the original bit, and any other bit has the pattern of
the role. -/
structure Role.Keeps (role : Role) (original bit : Option Bool) : Prop where
  content : role = .content → bit = original
  pattern : ∀ prescribed, role.pattern? = some prescribed → bit = some prescribed

/-- Whether a body keeps the role of its directive over the bits in its place. -/
structure Directive.Keeps (directive : Directive) (slice body : Bits) : Prop where
  length : body.length = directive.bitSize
  content : directive.role = .content → body = slice
  pattern : ∀ prescribed, directive.role.pattern? = some prescribed →
    body = List.replicate directive.bitSize prescribed

namespace Layout

private theorem getElem?_append_append {α : Type} (first second third : List α) (index : Nat) :
    (first ++ second ++ third)[index]? =
      if index < first.length then first[index]?
      else if index < first.length + second.length then second[index - first.length]?
      else third[index - (first.length + second.length)]? := by
  rw [List.append_assoc, List.getElem?_append]
  split
  · rfl
  · rw [List.getElem?_append]
    split <;> split <;> first | rfl | omega | (congr 1; omega)

/-- `place` of bodies that keep the roles of their directives keeps all roles. -/
theorem keeps_place {original : Bits} {directives : List Directive} {cursor : Nat}
    {bodies : List Bits}
    (keep : List.Forall₂ (fun place body => place.1.Keeps place.2 body)
      (directives.zip (slices original cursor directives)) bodies)
    {index : Nat} {role : Role} (assigned : (roles cursor directives)[index]? = some role) :
    role.Keeps original[cursor + index]? (place cursor directives bodies)[index]? := by
  induction directives generalizing cursor bodies index with
  | nil => contradiction
  | cons directive directives ih =>
      rw [slices, List.zip_cons_cons] at keep
      cases keep with
      | @cons _ body _ bodies first others =>
          have start := directive.start_eq cursor
          have stop := directive.stop_eq cursor
          rw [roles, getElem?_append_append, List.length_replicate, List.length_replicate]
            at assigned
          rw [place, getElem?_append_append, List.length_replicate, first.length]
          by_cases in_gap : index < directive.gap cursor
          · rw [if_pos in_gap, List.getElem?_replicate, if_pos in_gap] at assigned
            obtain rfl := Option.some.inj assigned
            refine ⟨fun content => ?_, fun prescribed same => ?_⟩
            · contradiction
            obtain rfl := Option.some.inj same
            rw [if_pos in_gap, List.getElem?_replicate, if_pos in_gap]
          rw [if_neg in_gap] at assigned ⊢
          by_cases in_body : index < directive.gap cursor + directive.bitSize
          · have offset : index - directive.gap cursor < directive.bitSize := by omega
            rw [if_pos in_body, List.getElem?_replicate, if_pos offset] at assigned
            obtain rfl := Option.some.inj assigned
            rw [if_pos in_body]
            refine ⟨fun content => ?_, fun prescribed same => ?_⟩
            · rw [first.content content, List.getElem?_take_of_lt offset, List.getElem?_drop, start]
              congr 1
              omega
            · rw [first.pattern prescribed same, List.getElem?_replicate, if_pos offset]
          · rw [if_neg in_body] at assigned ⊢
            have shift : directive.stop cursor + (index - (directive.gap cursor +
                directive.bitSize)) = cursor + index := by
              omega
            have later := ih others assigned
            rwa [shift] at later

/-- Every role is that of a directive or of alignment. -/
theorem mem_roles {cursor : Nat} {directives : List Directive} {role : Role}
    (member : role ∈ roles cursor directives) :
    role = .alignment ∨ ∃ directive ∈ directives, role = directive.role := by
  induction directives generalizing cursor with
  | nil => contradiction
  | cons directive directives ih =>
      rw [roles, List.mem_append, List.mem_append] at member
      rcases member with (leading | own) | later
      · exact .inl (List.eq_of_mem_replicate leading)
      · exact .inr ⟨directive, List.mem_cons_self, List.eq_of_mem_replicate own⟩
      · rcases ih later with alignment | ⟨other, other_member, same⟩
        · exact .inl alignment
        · exact .inr ⟨other, List.mem_cons_of_mem _ other_member, same⟩

end Layout

namespace Record

variable {directives : List Directive} {slices : List Bits}

/-- Every field carries the content of its place. -/
theorem carries_contents (valid : ∀ directive ∈ directives, directive.Valid)
    (fits : Layout.Fits directives slices) :
    List.Forall₂ Field.Carries (Directive.givenFields directives) (contents directives slices) := by
  induction fits with
  | nil => exact .nil
  | @cons directive slice directives slices length _ ih =>
      obtain ⟨first_valid, others_valid⟩ := List.forall_mem_cons.mp valid
      have others := ih others_valid
      cases directive with
      | literal data => exact others
      | field field =>
          cases given : field.takesValue with
          | true =>
              rw [Directive.givenFields_given given, contents, Directive.content?, if_pos given]
              exact .cons (Field.carries_content first_valid given length) others
          | false =>
              rw [Directive.givenFields_filled given, contents, Directive.content?, given]
              exact others

/-- The bytes of a literal keep its role where they are found. -/
theorem keeps_literal {data : Bytes} {slice : Bits}
    (length : slice.length = (Directive.literal data).bitSize)
    (agrees : (Directive.literal data).Agrees slice) :
    (Directive.literal data).Keeps slice (Bits.ofBytes data) := by
  have same : slice.toBytes = data := agrees
  refine ⟨Bits.length_ofBytes data, fun _ => ?_, fun prescribed pattern => ?_⟩
  · rw [Directive.bitSize] at length
    rw [← same, Bits.ofBytes_toBytes, Bits.completed_of_whole (by omega)]
  · contradiction

/-- The bits of a field that takes a value keep its role when they are unchanged. -/
theorem keeps_given {field : Field} (given : field.fill = none) {slice : Bits}
    (length : slice.length = field.bitSize) : (Directive.field field).Keeps slice slice := by
  have role : (Directive.field field).role = .content := by
    rw [Directive.role, given]
  refine ⟨length, fun _ => rfl, fun prescribed same => ?_⟩
  rw [role] at same
  contradiction

/-- The image of a fill keeps the role of its field. -/
theorem keeps_filled {field : Field} {mode : Fill} (filled : field.fill = some mode)
    {numbers : List Nat} (enough : field.requests.length ≤ numbers.length) (slice : Bits) :
    (Directive.field field).Keeps slice (field.fillImage mode numbers) := by
  have role : (Directive.field field).role = .filled mode := by
    rw [Directive.role, filled]
  refine ⟨Field.length_fillImage filled enough, fun content => ?_, fun prescribed same => ?_⟩
  · rw [role] at content
    contradiction
  · rw [role] at same
    cases mode with
    | zeros | ones =>
        obtain rfl := Option.some.inj same
        rfl
    | random => contradiction

/-- The bodies for the contents of the places keep the roles. -/
theorem keeps_bodies (valid : ∀ directive ∈ directives, directive.Valid)
    (fits : Layout.Fits directives slices)
    (agree : List.Forall₂ Directive.Agrees directives slices) {numbers : List Nat}
    (enough : (directives.flatMap Directive.requests).length ≤ numbers.length) :
    List.Forall₂ (fun place body => place.1.Keeps place.2 body) (directives.zip slices)
      (bodies directives
        (List.zipWith Field.image (Directive.givenFields directives) (contents directives slices))
        numbers) := by
  induction fits generalizing numbers with
  | nil => exact .nil
  | @cons directive slice directives slices length _ ih =>
      obtain _ | ⟨first_agrees, others_agree⟩ := agree
      obtain ⟨first_valid, others_valid⟩ := List.forall_mem_cons.mp valid
      rw [List.flatMap_cons, List.length_append] at enough
      have others (following : List Nat)
          (following_enough : (directives.flatMap Directive.requests).length ≤ following.length) :=
        ih others_valid others_agree following_enough
      cases directive with
      | literal data =>
          exact .cons (keeps_literal length first_agrees)
            (others numbers (Nat.le_trans (Nat.le_add_left _ _) enough))
      | field field =>
          cases fill : field.fill with
          | some mode =>
              have given := Field.takesValue_of_fill fill
              have own : field.requests.length ≤ numbers.length :=
                Nat.le_trans (Nat.le_add_right _ _) enough
              rw [Directive.givenFields_filled given, bodies_filled fill, contents,
                Directive.content?, given]
              refine .cons (keeps_filled fill own slice) (others _ ?_)
              rw [List.length_drop]
              exact Nat.le_sub_of_add_le' enough
          | none =>
              have given := Field.takesValue_iff.mpr fill
              have image := Field.image_content first_valid given length
              rw [Directive.givenFields_given given, contents, Directive.content?, if_pos given,
                Option.toList_some, List.singleton_append, List.zipWith_cons_cons, image,
                bodies_given fill]
              exact .cons (keeps_given fill length)
                (others numbers (Nat.le_trans (Nat.le_add_left _ _) enough))

/-- The images of arguments are those of their payloads. -/
private theorem images_zipWith (fields : List Field) (payloads : List Payload) :
    images fields (List.zipWith (fun field payload => ⟨field.kind, payload⟩) fields payloads) =
      List.zipWith Field.image fields payloads := by
  induction fields generalizing payloads with
  | nil => rfl
  | cons field fields ih =>
      cases payloads with
      | nil => rfl
      | cons payload payloads =>
          rw [List.zipWith_cons_cons, images_cons, ih, List.zipWith_cons_cons]

end Record

/-- The bits of the first bytes are the first bits. -/
private theorem getElem?_ofBytes_take {bytes : Bytes} {size index : Nat}
    (inside : index < 8 * (bytes.take size).length) :
    (Bits.ofBytes (bytes.take size))[index]? = (Bits.ofBytes bytes)[index]? := by
  rw [List.length_take] at inside
  rw [Bits.ofBytes_take, List.getElem?_take_of_lt (by omega)]

namespace Format

variable {given buffer length : Value} {source : RandomSource} {format : Format}
  {payloads : List Payload}

/-- The completed record of bodies that keep the roles of their directives keeps the roles of all
its bits. -/
theorem keeps_completed {bytes : Bytes} {bodies : List Bits}
    (keep : List.Forall₂ (fun place body => place.1.Keeps place.2 body)
      (format.directives.zip (format.slices bytes)) bodies)
    (reaches : (Layout.place 0 format.directives bodies).length = format.bitSize)
    {index : Nat} {role : Role} (assigned : format.roles[index]? = some role) :
    role.Keeps (Bits.ofBytes bytes)[index]?
      (Bits.completed (Layout.place 0 format.directives bodies))[index]? := by
  have roles_length : (Layout.roles 0 format.directives).length = format.bitSize := by
    have length := Layout.length_roles 0 format.directives
    rwa [Nat.zero_add] at length
  rw [roles, List.getElem?_append, roles_length] at assigned
  rw [Bits.completed, List.getElem?_append, reaches]
  by_cases inside : index < format.bitSize
  · rw [if_pos inside] at assigned ⊢
    have kept := Layout.keeps_place keep assigned
    rwa [Nat.zero_add] at kept
  · rw [if_neg inside] at assigned ⊢
    rw [List.getElem?_replicate] at assigned ⊢
    split at assigned
    · rename_i beyond
      obtain rfl := Option.some.inj assigned
      rw [if_pos beyond]
      refine ⟨fun content => ?_, fun prescribed same => ?_⟩
      · contradiction
      obtain rfl := Option.some.inj same
      rfl
    · contradiction

/-- Without random fills every bit that is no content has a pattern. -/
theorem pattern_of_mem_roles
    (constant : ∀ field, .field field ∈ format.directives → field.fill ≠ some .random) {role : Role}
    (member : role ∈ format.roles) :
    role = .content ∨ ∃ prescribed, role.pattern? = some prescribed := by
  rw [roles, List.mem_append] at member
  rcases member with inner | completing
  · rcases Layout.mem_roles inner with rfl | ⟨directive, directive_member, rfl⟩
    · exact .inr ⟨false, rfl⟩
    · cases directive with
      | literal data => exact .inl rfl
      | field field =>
          rw [Directive.role]
          cases fill : field.fill with
          | none => exact .inl rfl
          | some mode =>
              cases mode with
              | zeros => exact .inr ⟨false, rfl⟩
              | ones => exact .inr ⟨true, rfl⟩
              | random => exact absurd fill (constant field directive_member)
  · obtain rfl := List.eq_of_mem_replicate completing
    exact .inr ⟨false, rfl⟩

/-- Without random fills a record that keeps the roles is the front of a buffer that has every bit
of a pattern. -/
theorem eq_take_of_keeps {record bytes : Bytes}
    (constant : ∀ field, .field field ∈ format.directives → field.fill ≠ some .random)
    (record_length : record.length = format.size) (within : format.size ≤ bytes.length)
    (keep : ∀ (index : Nat) (role : Role), format.roles[index]? = some role →
      role.Keeps (Bits.ofBytes bytes)[index]? (Bits.ofBytes record)[index]?)
    (prescribed_bits : ∀ (index : Nat) (role : Role) (prescribed : Bool),
      format.roles[index]? = some role → role.pattern? = some prescribed →
      (Bits.ofBytes bytes)[index]? = some prescribed) :
    record = bytes.take format.size := by
  have front_length : (bytes.take format.size).length = format.size := by
    rw [List.length_take, Nat.min_eq_left within]
  apply Bits.ofBytes_injective
  apply List.ext_getElem?
  intro index
  by_cases inside : index < 8 * format.size
  · rw [getElem?_ofBytes_take (by rwa [front_length])]
    have assigned : index < format.roles.length := by rwa [format.length_roles]
    have role_at := List.getElem?_eq_getElem assigned
    have kept := keep index _ role_at
    rcases pattern_of_mem_roles constant (List.getElem_mem assigned) with content | ⟨bit, pattern⟩
    · exact kept.content content
    · rw [kept.pattern bit pattern, prescribed_bits index _ bit role_at pattern]
  · rw [List.getElem?_eq_none, List.getElem?_eq_none]
    · rw [Bits.length_ofBytes, front_length]
      omega
    · rw [Bits.length_ofBytes, record_length]
      omega

/-- The bytes that `unpack` has read from the front of a buffer. -/
private theorem exists_readable (valid : ∀ directive ∈ format.directives, directive.Valid)
    (unpacked : (format.unpack buffer length).outcome = .ok payloads) :
    ∃ bytes size, buffer.asBytes? = some bytes ∧ format.size ≤ (bytes.take size).length ∧
      Layout.Fits format.directives (format.slices (bytes.take size)) ∧
      List.Forall₂ Directive.Agrees format.directives (format.slices (bytes.take size)) ∧
      payloads = Record.contents format.directives (format.slices (bytes.take size)) := by
  obtain ⟨readable, accepted, enough, agree, rfl⟩ := (unpack_outcome_eq_ok_iff valid).mp unpacked
  obtain ⟨bytes, size, held, _, same⟩ := Reader.ofValue_eq_ok accepted
  obtain rfl : readable = bytes.take size := by
    apply Bits.ofBytes_injective
    exact congrArg Reader.rest same
  refine ⟨bytes, size, held, enough, Layout.fits_slices ?_, agree, rfl⟩
  rw [Bits.length_ofBytes]
  exact size_le_iff.mp enough

/-- `Format.bind` accepts the values of carried payloads. -/
private theorem bind_payloads (valid : ∀ directive ∈ format.directives, directive.Valid)
    (carried : List.Forall₂ Field.Carries format.givenFields payloads) :
    ∃ arguments, (format.bind (.list (payloads.map Payload.toValue))).outcome = .ok arguments ∧
      Bound format.givenFields (payloads.map Payload.toValue) arguments ∧
      Record.images format.givenFields arguments =
        List.zipWith Field.image format.givenFields payloads := by
  have fields_valid : ∀ field ∈ format.givenFields, field.Valid := by
    intro field member
    exact valid _ (Directive.mem_givenFields_iff.mp member).1
  have each := Bound.of_carried fields_valid carried
  refine ⟨_, ?_, each, Record.images_zipWith _ _⟩
  exact bind_outcome_eq_ok_iff.mpr ⟨rfl, rfl, rfl, _, rfl, each⟩

/-- `pack` succeeds on the payloads that `unpack` gives. The record has the size of its format, each
of its content bits is that of the buffer, and every other bit has the pattern of its role. A buffer
whose other bits have these patterns starts with the record. -/
theorem pack_unpack (compiled : (compile given).outcome = .ok format)
    (unpacked : (BitRecord.unpack given buffer length).outcome = .ok payloads)
    (in_range : source.InRange) :
    ∃ arguments record bytes,
      (format.bind (.list (payloads.map Payload.toValue))).outcome = .ok arguments ∧
      (BitRecord.pack given (.list (payloads.map Payload.toValue)) source).outcome = .ok record ∧
      record.length = format.size ∧ format.roles.length = 8 * format.size ∧
      buffer.asBytes? = some bytes ∧ format.size ≤ bytes.length ∧
      (∀ (index : Nat) (role : Role), format.roles[index]? = some role →
        role.Keeps (Bits.ofBytes bytes)[index]? (Bits.ofBytes record)[index]?) ∧
      ((∀ field, .field field ∈ format.directives → field.fill ≠ some .random) →
        (∀ (index : Nat) (role : Role) (prescribed : Bool), format.roles[index]? = some role →
          role.pattern? = some prescribed → (Bits.ofBytes bytes)[index]? = some prescribed) →
        record = bytes.take format.size) := by
  have valid := valid_of_compile compiled
  rw [BitRecord.unpack, Traced.outcome_bind_of_ok compiled] at unpacked
  obtain ⟨bytes, size, held, enough, fits, agree, contents⟩ := exists_readable valid unpacked
  have within : format.size ≤ bytes.length := by
    rw [List.length_take] at enough
    omega
  have carried : List.Forall₂ Field.Carries format.givenFields payloads :=
    contents ▸ Record.carries_contents valid fits
  obtain ⟨arguments, bound, each, images⟩ := bind_payloads valid carried
  obtain ⟨numbers, answered⟩ := in_range.exists_answers #[] format.requests
  have packed := pack_outcome in_range valid bound answered
  have reaches := length_layOut valid each answered
  have keep := Record.keeps_bodies valid fits agree
    (Nat.le_of_eq (RandomSource.length_of_answers answered).symm)
  rw [← contents, ← givenFields, ← images] at keep
  let record := (format.layOut (Record.images format.givenFields arguments) numbers).toBytes
  have record_length : record.length = format.size := by
    rw [Bits.length_toBytes, reaches, Format.size]
  have kept (index : Nat) (role : Role) (assigned : format.roles[index]? = some role) :
      role.Keeps (Bits.ofBytes bytes)[index]? (Bits.ofBytes record)[index]? := by
    have inside : index < 8 * format.size := by
      rw [← format.length_roles]
      exact (List.getElem?_eq_some_iff.mp assigned).1
    have front := keeps_completed keep reaches assigned
    rw [getElem?_ofBytes_take (by omega)] at front
    rwa [Bits.ofBytes_toBytes]
  exact ⟨arguments, record, bytes, bound, (Traced.outcome_bind_of_ok compiled _).trans packed,
    record_length, format.length_roles, held, within, kept, fun constant =>
      eq_take_of_keeps constant record_length within kept⟩

/-- Packed again, a bit of the run is as in the buffer, and an alignment bit is zero although the
buffer has a one there. -/
theorem pack_unpack_mixed :
    ∃ record, (BitRecord.pack mixed.given
        (.list [.integer 160, .list [.integer 1, .integer 255], .buffer .bytes [7, 0]])
        (.cyclic #[1])).outcome = .ok record ∧
      record.length = 7 ∧ (Bits.ofBytes record)[2]? = some true ∧
      (Bits.ofBytes record)[3]? = some false := by
  have unpacked : (BitRecord.unpack mixed.given
      (.buffer .bytes [191, 65, 0, 255, 131, 128, 127, 9]) .null).outcome =
        .ok [.integer 160, .integers [1, 255], .bytes [7, 0]] :=
    (Traced.outcome_bind_of_ok compile_mixed _).trans rfl
  obtain ⟨_, record, bytes, _, packed, size, _, held, _, keep, _⟩ :=
    pack_unpack compile_mixed unpacked
      (RandomSource.inRange_cyclic (show 0 < (#[1] : Array Int).size by decide))
  obtain rfl := Option.some.inj held
  exact ⟨record, packed, size, (keep 2 .content rfl).content rfl,
    (keep 3 .alignment rfl).pattern false rfl⟩

end Format

end BitRecord
