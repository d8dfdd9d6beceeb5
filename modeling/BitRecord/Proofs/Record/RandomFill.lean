/-
# Random fills are confined

The requests to a random source follow from the format alone, and each number
drawn is written in the place of its own element, most significant bit first: the
order of the field does not reverse it. So the records that `pack` gives for two
sources have one length and differ in the places of random fills only, and
`unpack` gives the same for both.
-/

import BitRecord.Proofs.Record.Concatenation
import BitRecord.Proofs.Record.Reencoding
import BitRecord.Proofs.Record.RoundTrip

namespace BitRecord

namespace Field

variable {field : Field}

/-- The requests of a random fill are of one width and make up the whole field. -/
theorem requests_eq_replicate (random : field.fill = some .random) :
    ∃ elements width, field.requests = List.replicate elements width ∧
      field.bitSize = elements * width := by
  rw [requests_of_random random]
  by_cases run : field.kind = .bit
  · refine ⟨1, field.count, by rw [if_pos run]; rfl, ?_⟩
    rw [bitSize, width_of_bit run]
  · exact ⟨field.count, field.width, if_neg run, Nat.mul_comm _ _⟩

/-- The digits of a number stand behind those of the numbers drawn before it. -/
private theorem take_drop_flatten (elements width : Nat) {numbers : List Nat} {index number : Nat}
    (asked : index < elements) (drawn : numbers[index]? = some number) :
    ((List.zipWith Bits.ofNat (List.replicate elements width) numbers).flatten.drop
      (index * width)).take width = Bits.ofNat width number := by
  induction index generalizing elements numbers with
  | zero =>
      cases elements with
      | zero => contradiction
      | succ elements =>
          cases numbers with
          | nil => contradiction
          | cons first numbers =>
              obtain rfl : first = number := Option.some.inj drawn
              rw [Nat.zero_mul, List.drop_zero, List.replicate_succ, List.zipWith_cons_cons,
                List.flatten_cons, List.take_left' (Bits.length_ofNat width first)]
  | succ index ih =>
      cases elements with
      | zero => contradiction
      | succ elements =>
          cases numbers with
          | nil => contradiction
          | cons first numbers =>
              rw [List.replicate_succ, List.zipWith_cons_cons, List.flatten_cons, Nat.succ_mul,
                Nat.add_comm, ← List.drop_drop, List.drop_left' (Bits.length_ofNat width first)]
              exact ih elements (Nat.lt_of_succ_lt_succ asked) drawn

/-- The image of a random fill has the digits of each number in the place of its element. -/
theorem take_drop_fillImage (random : field.fill = some .random) {numbers : List Nat}
    {index width number : Nat} (asked : field.requests[index]? = some width)
    (drawn : numbers[index]? = some number) :
    index * width + width ≤ field.bitSize ∧
      ((field.fillImage .random numbers).drop (index * width)).take width =
        Bits.ofNat width number := by
  obtain ⟨elements, same, requests, size⟩ := requests_eq_replicate random
  rw [requests, List.getElem?_replicate] at asked
  split at asked
  · rename_i inside
    obtain rfl := Option.some.inj asked
    refine ⟨?_, ?_⟩
    · rw [size, ← Nat.succ_mul]
      exact Nat.mul_le_mul_right same inside
    · rw [fillImage, requests]
      exact take_drop_flatten elements same inside drawn
  · contradiction

end Field

namespace Layout

/-- The slice of a directive behind others is taken where the others end. -/
theorem getElem?_slices (record : Bits) (cursor : Nat) (front : List Directive)
    (directive : Directive) (back : List Directive) :
    (slices record cursor (front ++ directive :: back))[front.length]? =
      some ((record.drop (directive.start (stop cursor front))).take directive.bitSize) := by
  induction front generalizing cursor with
  | nil => rfl
  | cons other front ih => exact ih (other.stop cursor)

end Layout

namespace Record

/-- The body of a filled field is the image of the numbers behind those for the directives in
front. -/
theorem getElem?_bodies_filled {field : Field} {mode : Fill} (filled : field.fill = some mode)
    (front back : List Directive) (images : List Bits) (numbers : List Nat) :
    (bodies (front ++ .field field :: back) images numbers)[front.length]? =
      some (field.fillImage mode (numbers.drop (front.flatMap Directive.requests).length)) := by
  induction front generalizing images numbers with
  | nil =>
      rw [List.nil_append, bodies_filled filled]
      rfl
  | cons directive front ih =>
      rw [List.cons_append, List.flatMap_cons, List.length_append, ← List.drop_drop]
      cases directive with
      | literal data => exact ih images numbers
      | field other =>
          cases fill : other.fill with
          | some mode =>
              rw [bodies_filled fill]
              exact ih images _
          | none =>
              have silent : (Directive.field other).requests = [] := Field.requests_of_given fill
              rw [bodies, fill, silent]
              exact ih images.tail numbers

/-- The bodies for other numbers keep the same roles. -/
theorem keeps_bodies_of_numbers {directives : List Directive} {images : List Bits}
    {numbers others : List Nat}
    (fitting : List.Forall₂ (fun field image => image.length = field.bitSize)
      (Directive.givenFields directives) images)
    (enough : (directives.flatMap Directive.requests).length ≤ others.length) :
    List.Forall₂ (fun place body => place.1.Keeps place.2 body)
      (directives.zip (bodies directives images numbers)) (bodies directives images others) := by
  induction directives generalizing images numbers others with
  | nil => exact .nil
  | cons directive directives ih =>
      rw [List.flatMap_cons, List.length_append] at enough
      have later : (directives.flatMap Directive.requests).length ≤ others.length :=
        Nat.le_trans (Nat.le_add_left _ _) enough
      cases directive with
      | literal data =>
          exact .cons (keeps_literal (Bits.length_ofBytes data) (Bits.toBytes_ofBytes data))
            (ih fitting later)
      | field field =>
          cases fill : field.fill with
          | some mode =>
              have own : field.requests.length ≤ others.length :=
                Nat.le_trans (Nat.le_add_right _ _) enough
              rw [Directive.givenFields_filled (Field.takesValue_of_fill fill)] at fitting
              rw [bodies_filled fill, bodies_filled fill]
              refine .cons (keeps_filled fill own _) (ih fitting ?_)
              rw [List.length_drop]
              exact Nat.le_sub_of_add_le' enough
          | none =>
              rw [Directive.givenFields_given (Field.takesValue_iff.mpr fill)] at fitting
              cases fitting with
              | cons first fitting =>
                  rw [bodies_given fill, bodies_given fill]
                  exact .cons (keeps_given fill first) (ih fitting later)

end Record

namespace Format

variable {given values : Value} {source : RandomSource} {format : Format} {items : List Value}
  {arguments : List Argument} {numbers others : List Nat} {record other : Bytes}

/-- Whether the numbers that were drawn for a format stand in a record, each in the place of its
element and from its most significant bit on. A field has the numbers behind those for the fields in
front of it. -/
def HoldsDrawn (format : Format) (numbers : List Nat) (record : Bytes) : Prop :=
  ∀ (front : List Item) (item : Item) (back : List Item) (field : Field),
    format.items = front ++ item :: back → item.directive = .field field →
    field.fill = some .random → ∀ index width : Nat, field.requests[index]? = some width →
    ∃ number,
      numbers[((front.map Item.directive).flatMap Directive.requests).length + index]? =
        some number ∧
      ((Bits.ofBytes record).drop
        (item.directive.start (Layout.stop 0 (front.map Item.directive)) + index * width)).take
          width = Bits.ofNat width number

/-- `layOut` holds the numbers drawn for it. -/
theorem holdsDrawn_layOut (valid : ∀ directive ∈ format.directives, directive.Valid)
    (bound : Bound format.givenFields items arguments)
    (answered : source.answers #[] format.requests = .ok numbers) :
    format.HoldsDrawn numbers
      (format.layOut (Record.images format.givenFields arguments) numbers).toBytes := by
  intro front item back field stands is_field random index width asked
  have whole : format.directives = front.map Item.directive ++ .field field
      :: back.map Item.directive := by
    rw [directives, stands, List.map_append, List.map_cons, is_field]
  obtain ⟨number, drawn⟩ : ∃ number,
      numbers[((front.map Item.directive).flatMap Directive.requests).length + index]? =
        some number := by
    have count := RandomSource.length_of_answers answered
    have inside : index < (Directive.field field).requests.length :=
      (List.getElem?_eq_some_iff.mp asked).1
    rw [requests, whole, List.flatMap_append, List.flatMap_cons, List.length_append,
      List.length_append] at count
    exact ⟨_, List.getElem?_eq_getElem (by omega)⟩
  refine ⟨number, drawn, ?_⟩
  -- The slice in the place of the field is its body, which is the image of its fill.
  have own := Record.getElem?_bodies_filled random (front.map Item.directive)
    (back.map Item.directive) (Record.images format.givenFields arguments) numbers
  have found := slices_layOut valid bound answered []
  rw [List.append_nil] at found
  rw [← whole, ← found, slices, whole, Layout.getElem?_slices] at own
  obtain ⟨inside, element⟩ := Field.take_drop_fillImage random asked
    (show (numbers.drop _)[index]? = some number by rwa [List.getElem?_drop])
  have fits : width ≤ (Directive.field field).bitSize - index * width :=
    Nat.le_sub_of_add_le' inside
  rw [is_field, ← element, ← Option.some.inj own, List.drop_take, List.take_take, List.drop_drop,
    Nat.min_eq_left fits]

/-- Records of the same values with other numbers differ in the places of random fills only. -/
theorem getElem?_layOut_of_numbers (valid : ∀ directive ∈ format.directives, directive.Valid)
    (bound : Bound format.givenFields items arguments) {first second : RandomSource}
    (answered : first.answers #[] format.requests = .ok numbers)
    (other_answered : second.answers #[] format.requests = .ok others) {index : Nat} {role : Role}
    (assigned : format.roles[index]? = some role) (constant : role ≠ .filled .random) :
    (Bits.ofBytes
        (format.layOut (Record.images format.givenFields arguments) others).toBytes)[index]? =
      (Bits.ofBytes
        (format.layOut (Record.images format.givenFields arguments) numbers).toBytes)[index]? := by
  have found := slices_layOut valid bound answered []
  rw [List.append_nil] at found
  have fitting : List.Forall₂ (fun field image => image.length = field.bitSize)
      format.givenFields (Record.images format.givenFields arguments) :=
    Record.length_images valid bound.carried
  have kept {source : RandomSource} {drawn : List Nat}
      (served : source.answers #[] format.requests = .ok drawn) :
      role.Keeps
        (Bits.ofBytes
          (format.layOut (Record.images format.givenFields arguments) numbers).toBytes)[index]?
        (Bits.ofBytes
          (format.layOut (Record.images format.givenFields arguments) drawn).toBytes)[index]? := by
    have keep := @Record.keeps_bodies_of_numbers format.directives _ numbers drawn fitting
      (Nat.le_of_eq (RandomSource.length_of_answers served).symm)
    rw [← found] at keep
    rw [Bits.ofBytes_toBytes (format.layOut _ drawn)]
    exact keeps_completed keep (length_layOut valid bound served) assigned
  have other := kept other_answered
  cases pattern : role.pattern? with
  | some prescribed =>
      rw [other.pattern prescribed pattern, (kept answered).pattern prescribed pattern]
  | none =>
      -- A bit without a pattern is content, since it belongs to no random fill.
      refine other.content ?_
      cases role with
      | content => rfl
      | filled mode => cases mode <;> trivial
      | alignment | completion => contradiction

/-- `unpack` of a record that `pack` gives, with any source, gives the normal forms of the
values. -/
theorem unpack_of_pack (compiled : (compile given).outcome = .ok format)
    (packed : (BitRecord.pack given values source).outcome = .ok record) :
    ∃ items payloads, values.items? = some items ∧ items.length = format.arity ∧
      payloads.length = format.arity ∧
      List.zipWith Field.normalForm? format.givenFields items = payloads.map some ∧
      (BitRecord.unpack given (.buffer .bytes record) .null).outcome = .ok payloads := by
  have valid := valid_of_compile compiled
  rw [pack_of_compile compiled] at packed
  obtain ⟨arguments, numbers, bound, answered, _, rfl⟩ := exists_of_pack valid packed
  obtain ⟨_, _, _, items, listed, each⟩ := bind_outcome_eq_ok_iff.mp bound
  refine ⟨items, List.zipWith (fun field argument => argument.payload.fitted field.count)
    format.givenFields arguments, listed, each.length_eq.trans format.arity_eq.symm, ?_, ?_, ?_⟩
  · rw [List.length_zipWith, ← each.carried.length_eq, Nat.min_self, format.arity_eq]
  · rw [each.normalForms, List.map_zipWith]
  · rw [unpack_of_compile compiled]
    refine unpack_layOut valid each answered [] ?_
    rw [List.append_nil, Reader.ofValue_null]

/-- The draws of a record that `pack` gives, with any source, are the requests of its format: one
number for each random bit run and one for each byte or word of any other random fill. Each number
stands in the place of its element. With two sources in range the records have one length, differ in
the places of random fills only, and are unpacked as the same payloads. -/
theorem pack_confines_random (compiled : (compile given).outcome = .ok format)
    (bound : (format.bind values).outcome = .ok arguments) :
    (∀ (source : RandomSource) (record : Bytes),
      (BitRecord.pack given values source).outcome = .ok record →
      (BitRecord.pack given values source).draws = format.requests ∧
      ∃ numbers, source.answers #[] format.requests = .ok numbers ∧
        format.HoldsDrawn numbers record) ∧
    (∀ first second : RandomSource, first.InRange → second.InRange →
      ∃ record other payloads,
        (BitRecord.pack given values first).outcome = .ok record ∧
        (BitRecord.pack given values second).outcome = .ok other ∧
        record.length = other.length ∧
        (∀ index : Nat, (Bits.ofBytes other)[index]? ≠ (Bits.ofBytes record)[index]? →
          format.roles[index]? = some (.filled .random)) ∧
        (BitRecord.unpack given (.buffer .bytes record) .null).outcome = .ok payloads ∧
        (BitRecord.unpack given (.buffer .bytes other) .null).outcome = .ok payloads) := by
  have valid := valid_of_compile compiled
  obtain ⟨_, _, _, items, _, each⟩ := bind_outcome_eq_ok_iff.mp bound
  apply And.intro
  · intro source record packed
    refine ⟨draws_of_pack compiled packed, ?_⟩
    rw [pack_of_compile compiled] at packed
    obtain ⟨own, numbers, own_bound, answered, _, rfl⟩ := exists_of_pack valid packed
    obtain rfl := Except.ok.inj (bound.symm.trans own_bound)
    exact ⟨numbers, answered, holdsDrawn_layOut valid each answered⟩
  · intro first second first_range second_range
    obtain ⟨numbers, answered⟩ := first_range.exists_answers #[] format.requests
    obtain ⟨others, other_answered⟩ := second_range.exists_answers #[] format.requests
    have packed := pack_outcome first_range valid bound answered
    have other_packed := pack_outcome second_range valid bound other_answered
    have length := length_of_pack valid packed
    have other_length := length_of_pack valid other_packed
    obtain ⟨_, payloads, listed, _, _, normal, unpacked⟩ :=
      unpack_of_pack compiled ((pack_of_compile compiled _ _).trans packed)
    obtain ⟨_, others_payloads, other_listed, _, _, other_normal, other_unpacked⟩ :=
      unpack_of_pack compiled ((pack_of_compile compiled _ _).trans other_packed)
    obtain rfl := Option.some.inj (listed.symm.trans other_listed)
    obtain rfl : payloads = others_payloads :=
      (List.map_inj_right fun _ _ => Option.some.inj).mp (normal.symm.trans other_normal)
    refine ⟨_, _, payloads, (pack_of_compile compiled _ _).trans packed,
      (pack_of_compile compiled _ _).trans other_packed, length.trans other_length.symm,
      fun index different => ?_, unpacked, other_unpacked⟩
    cases assigned : format.roles[index]? with
    | some role =>
        refine congrArg some (Decidable.byContradiction fun constant => different ?_)
        exact getElem?_layOut_of_numbers valid each answered other_answered assigned constant
    | none =>
        refine absurd ?_ different
        rw [List.getElem?_eq_none_iff, length_roles] at assigned
        rw [List.getElem?_eq_none, List.getElem?_eq_none]
        · rwa [Bits.length_ofBytes, length]
        · rwa [Bits.length_ofBytes, other_length]

/-- A format with little-endian words and a big-endian bit run to be filled at random, none of them
on a byte boundary. -/
def noisy : Format where
  given := .text "%i1%2lwr%3bir"
  items := [⟨0, .field ⟨.bit, 1, .native, false, some .ones, .scalar⟩⟩,
    ⟨3, .field ⟨.word16, 2, .little, false, some .random, .scalar⟩⟩,
    ⟨8, .field ⟨.bit, 3, .big, false, some .random, .scalar⟩⟩]

theorem compile_noisy : (compile noisy.given).outcome = .ok noisy :=
  @compile_of_piecesWithin "%i1%2lwr%3bir" 13 noisy.items (by decide) (by decide +kernel)

/-- The second word starts at bit 17 with its high byte, and the run has the bits of its number in
their order. -/
theorem pack_confines_random_noisy :
    ∃ record numbers,
      (BitRecord.pack noisy.given (.list []) (.cyclic #[4660, 258, 6])).outcome = .ok record ∧
      (BitRecord.pack noisy.given (.list []) (.cyclic #[4660, 258, 6])).draws = [16, 16, 3] ∧
      noisy.HoldsDrawn numbers record ∧ numbers = [4660, 258, 6] ∧
      ((Bits.ofBytes record).drop 17).take 16 = Bits.ofNat 16 258 ∧
      ((Bits.ofBytes record).drop 33).take 3 = [true, true, false] := by
  have in_range := RandomSource.inRange_cyclic
    (show 0 < (#[4660, 258, 6] : Array Int).size by decide)
  obtain ⟨single, pair⟩ := @pack_confines_random noisy.given (.list []) noisy [] compile_noisy rfl
  obtain ⟨record, _, _, packed, _⟩ := pair _ _ in_range in_range
  obtain ⟨drawn, numbers, answered, held⟩ := single _ record packed
  obtain rfl : [4660, 258, 6] = numbers := Except.ok.inj answered
  refine ⟨record, _, packed, drawn, held, rfl, ?_, ?_⟩
  · obtain ⟨_, second, word⟩ :=
      held [noisy.items[0]] noisy.items[1] [noisy.items[2]] _ rfl rfl rfl 1 16 rfl
    obtain rfl := Option.some.inj second
    exact word
  · obtain ⟨_, third, run⟩ := held (noisy.items.take 2) noisy.items[2] [] _ rfl rfl rfl 0 3 rfl
    obtain rfl := Option.some.inj third
    exact run

end Format

end BitRecord
