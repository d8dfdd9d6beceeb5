/-
# The orders of a bit run

The order of a bit run determines how its integer is written, not where its bits
lie. The same bits are an integer below two to the length of the run, the integer
with its binary digits reversed, or the integer shifted left to the top of the
whole bytes (`Order.runNumber`). So formats that differ only in the order of a run
have the same records for these integers, and read them off the same buffers.
-/

import BitRecord.Proofs.Record.Replacement

namespace BitRecord

/-- The number with its lowest `width` binary digits in the opposite order. -/
def reversal : (width value : Nat) → Nat
  | 0, _ => 0
  | width + 1, value => value % 2 * 2 ^ width + reversal width (value / 2)

/-- `reversal` is `toNat` of the reversed digits. -/
theorem Bits.toNat_reverse_ofNat (width value : Nat) :
    toNat (ofNat width value).reverse = reversal width value := by
  induction width generalizing value with
  | zero => rfl
  | succ width ih =>
      have last : (ofNat 1 value).reverse = [value.testBit 0] := rfl
      rw [ofNat_add width 1 value, List.reverse_append, last, List.singleton_append, toNat_cons,
        List.length_reverse, length_ofNat, Nat.pow_one, ih, Nat.toNat_testBit, reversal,
        Nat.pow_zero, Nat.div_one]

/-- The integer of a run of `count` bits with the same bits as `number` in the native order: its
reversal in the big-endian order, and in the little-endian one the number shifted left by the bits
that complete the last byte. -/
def Order.runNumber (order : Order) (count number : Nat) : Nat :=
  match order with
  | .native => number
  | .big => reversal count number
  | .little => number * 2 ^ ((count + 7) / 8 * 8 - count)

namespace Field

/-- A scalar bit run that takes a value. -/
def run (count : Nat) (order : Order) (aligned : Bool) : Field where
  kind := .bit
  count := count
  order := order
  aligned := aligned
  fill := none
  shape := .scalar

variable {count number : Nat} {order : Order} {aligned : Bool}

/-- Whether a run is valid does not depend on its order. -/
theorem run_valid (valid : (run count order aligned).Valid) (other : Order) :
    (run count other aligned).Valid where
  count_pos := valid.count_pos
  string_given kind := nomatch kind
  array_given shape := nomatch shape
  several _ joined := nomatch joined

theorem bitSize_run (count : Nat) (order : Order) (aligned : Bool) :
    (run count order aligned).bitSize = count :=
  Nat.one_mul count

/-- `Field.content` of the digits of a number is `Order.runNumber`. -/
theorem content_run (small : number < 2 ^ count) (order : Order) (aligned : Bool) :
    (run count order aligned).content (Bits.ofNat count number) =
      .integer (order.runNumber count number) := by
  have read : (run count order aligned).content (Bits.ofNat count number) =
      .integer ((run count order aligned).runContent (Bits.ofNat count number)) := rfl
  rw [read]
  congr 1
  unfold runContent Order.runNumber
  cases order with
  | native => exact (Bits.toNat_ofNat count number).trans (Nat.mod_eq_of_lt small)
  | big => exact Bits.toNat_reverse_ofNat count number
  | little =>
      exact congrArg (· * 2 ^ ((count + 7) / 8 * 8 - count))
        ((Bits.toNat_ofNat count number).trans (Nat.mod_eq_of_lt small))

/-- A run carries `Order.runNumber`, and its image is the digits of the number. -/
theorem carries_run (valid : (run count order aligned).Valid) (small : number < 2 ^ count) :
    (run count order aligned).Carries (.integer (order.runNumber count number)) ∧
      (run count order aligned).image (.integer (order.runNumber count number)) =
        Bits.ofNat count number := by
  have length : (Bits.ofNat count number).length = (run count order aligned).bitSize := by
    rw [Bits.length_ofNat, bitSize_run]
  rw [← content_run small order aligned]
  exact ⟨carries_content valid rfl length, image_content valid rfl length⟩

/-- `Field.bind` of `Order.runNumber` gives that integer. -/
theorem bound_run_iff (valid : (run count order aligned).Valid) (small : number < 2 ^ count)
    {arguments : List Argument} :
    Bound [run count order aligned] [.integer (order.runNumber count number)] arguments ↔
      arguments = [⟨.bit, .integer (order.runNumber count number)⟩] := by
  have accepted := bind_toValue valid (carries_run valid small).1
  apply Iff.intro
  · intro bound
    cases bound with
    | cons first others =>
        cases others
        obtain rfl := Except.ok.inj (accepted.symm.trans first)
        rfl
  · rintro rfl
    exact .cons accepted .nil

/-- The contents of a run are `Order.runNumber` of the number that its bits write. -/
theorem contents_run {record : Bits} {cursor : Nat}
    (reached : Layout.stop cursor [.field (run count order aligned)] ≤ record.length) :
    ∃ number, number < 2 ^ count ∧ ∀ other : Order,
      Record.contents [.field (run count other aligned)]
          (Layout.slices record cursor [.field (run count other aligned)]) =
        [.integer (other.runNumber count number)] := by
  let body := (record.drop ((Directive.field (run count order aligned)).start cursor)).take
    (run count order aligned).bitSize
  have fits : Layout.Fits [.field (run count order aligned)]
      (Layout.slices record cursor [.field (run count order aligned)]) :=
    Layout.fits_slices reached
  have length : body.length = count :=
    (List.forall₂_cons.mp fits).1.trans (bitSize_run count order aligned)
  have small := Bits.toNat_lt body
  have digits := Bits.ofNat_toNat body
  rw [length] at small digits
  refine ⟨Bits.toNat body, small, fun other => ?_⟩
  have read := content_run small other aligned
  rw [digits] at read
  exact congrArg (fun payload => [payload]) read

/-- Runs in two orders, with the integers of the same number, are interchangeable. -/
theorem interchangeable_run (valid : (run count order aligned).Valid) (small : number < 2 ^ count)
    (other : Order) :
    Record.Interchangeable [run count order aligned] [run count other aligned]
      [.integer (order.runNumber count number)] [.integer (other.runNumber count number)] := by
  have other_valid := run_valid valid other
  have images : Record.images [run count order aligned]
        [⟨.bit, .integer (order.runNumber count number)⟩] =
      Record.images [run count other aligned]
        [⟨.bit, .integer (other.runNumber count number)⟩] :=
    congrArg (fun image => [image])
      ((carries_run valid small).2.trans (carries_run other_valid small).2.symm)
  have places (cursor : Nat) :=
    congrArg (Layout.place cursor [.field (run count order aligned)]) images
  refine ⟨rfl, rfl, fun _ => rfl, fun own_bound => ?_, fun swapped_bound => ?_⟩
  · obtain rfl := (bound_run_iff valid small).mp own_bound
    exact ⟨_, (bound_run_iff other_valid small).mpr rfl, places⟩
  · obtain rfl := (bound_run_iff other_valid small).mp swapped_bound
    exact ⟨_, (bound_run_iff valid small).mpr rfl, places⟩

end Field

namespace Format

variable {given : Value} {format : Format} {front back : List Directive} {count : Nat}
  {aligned : Bool}

/-- In any format, a bit run in the native order can be replaced by one in another order, with the
integer `Order.runNumber` in place of each number. `Format.bind` accepts the one exactly when it
accepts the other, and `pack` gives the same records with every random source. `unpack` succeeds on
the same buffers; where the native run gives a number, the other one gives its `Order.runNumber`,
and the other fields give the same. -/
theorem bit_orders_agree (compiled : (compile given).outcome = .ok format)
    (split : format.directives = front ++ .field (.run count .native aligned) :: back) :
    (∀ order, ∃ text turned, (compile (.text text)).outcome = .ok turned ∧
      turned.directives = front ++ .field (.run count order aligned) :: back) ∧
    ∀ (order : Order) (turnedGiven : Value) (turned : Format),
      (compile turnedGiven).outcome = .ok turned →
      turned.directives = front ++ .field (.run count order aligned) :: back →
      (∀ (number : Nat) (values others : Value) (before behind : List Value),
        number < 2 ^ count →
        before.length = (Directive.givenFields front).length →
        values.Lists (before ++ .integer number :: behind) →
        others.Lists (before ++ .integer (order.runNumber count number) :: behind) →
        ((∃ arguments, (format.bind values).outcome = .ok arguments) ↔
          ∃ first rest, Bound (Directive.givenFields front) before first ∧
            Bound (Directive.givenFields back) behind rest) ∧
        ((∃ arguments, (turned.bind others).outcome = .ok arguments) ↔
          ∃ arguments, (format.bind values).outcome = .ok arguments) ∧
        (∀ source record,
          (BitRecord.pack given values source).outcome = .ok record ↔
            (BitRecord.pack turnedGiven others source).outcome = .ok record) ∧
        ((∃ arguments, (format.bind values).outcome = .ok arguments) →
          ∀ source : RandomSource, source.InRange →
            ∃ record, (BitRecord.pack given values source).outcome = .ok record)) ∧
      ∀ buffer length : Value,
        ((∃ payloads, (BitRecord.unpack given buffer length).outcome = .ok payloads) ↔
          ∃ payloads, (BitRecord.unpack turnedGiven buffer length).outcome = .ok payloads) ∧
        ∀ payloads, (BitRecord.unpack given buffer length).outcome = .ok payloads →
          ∃ before number behind, before.length = (Directive.givenFields front).length ∧
            number < 2 ^ count ∧ payloads = before ++ .integer number :: behind ∧
            (BitRecord.unpack turnedGiven buffer length).outcome =
              .ok (before ++ .integer (order.runNumber count number) :: behind) := by
  have directives_valid := valid_of_compile compiled
  have native_valid : (Field.run count .native aligned).Valid := by
    refine directives_valid (.field _) ?_
    rw [split]
    exact List.mem_append_right front List.mem_cons_self
  have all_given (order : Order) :
      ∀ field ∈ [Field.run count order aligned], field.takesValue = true :=
    List.forall_mem_singleton.mpr rfl
  have has : format.HasRow front [.run count .native aligned] back :=
    ⟨directives_valid, split, all_given _⟩
  have short : count < DigitLimit.bound := has.count_lt compiled List.mem_cons_self
  refine ⟨fun order => has.exists_replaced compiled (List.cons_ne_nil _ _) (all_given order)
    (List.cons_ne_nil _ _)
    (List.forall_mem_singleton.mpr ⟨Field.run_valid native_valid order, short⟩), ?_⟩
  intro order turnedGiven turned turned_compiled turned_split
  have also : turned.HasRow front [.run count order aligned] back :=
    ⟨valid_of_compile turned_compiled, turned_split, all_given _⟩
  refine ⟨fun number values others before behind small front_enough listed others_listed => ?_,
    fun buffer length => ⟨?_, fun payloads unpacked => ?_⟩⟩
  · have interchange := Field.interchangeable_run native_valid small order
    have listed : values.Lists (before ++ ([.integer number] ++ behind)) := listed
    refine ⟨⟨fun accepted => ?_, fun around => ?_⟩,
      (has.accepts_iff also interchange front_enough listed others_listed).symm,
      fun source record => ?_, fun accepted source in_range => ?_⟩
    · obtain ⟨arguments, bound⟩ := accepted
      obtain ⟨first, _, rest, _, front_bound, _, back_bound⟩ :=
        (has.bind_iff listed front_enough rfl).mp bound
      exact ⟨first, rest, front_bound, back_bound⟩
    · obtain ⟨first, rest, front_bound, back_bound⟩ := around
      exact ⟨_, (has.bind_iff listed front_enough rfl).mpr ⟨first, _, rest, rfl, front_bound,
        (Field.bound_run_iff native_valid small).mpr rfl, back_bound⟩⟩
    · rw [pack_of_compile compiled, pack_of_compile turned_compiled]
      exact has.pack_iff also interchange front_enough listed others_listed
    · obtain ⟨arguments, bound⟩ := accepted
      obtain ⟨numbers, answered, _⟩ := exists_answers_fit in_range directives_valid bound
      exact ⟨_, (pack_of_compile compiled values source).trans
        (pack_outcome in_range directives_valid bound answered)⟩
  · rw [unpack_of_compile compiled, unpack_of_compile turned_compiled]
    exact has.unpack_succeeds_iff also (fun _ => rfl) buffer length
  · rw [unpack_of_compile compiled] at unpacked
    obtain ⟨record, before, behind, front_enough, reached, rfl, read⟩ := has.exists_reading unpacked
    obtain ⟨number, small, contents⟩ := Field.contents_run reached
    have turned_read := read also fun _ => rfl
    refine ⟨before, number, behind, front_enough, small, ?_, ?_⟩
    · exact congrArg (fun held => before ++ (held ++ behind)) (contents .native)
    · rw [unpack_of_compile turned_compiled, turned_read]
      exact congrArg (fun held => Except.ok (before ++ (held ++ behind))) (contents order)

/-- Five bits in some order between a random bit and a literal. -/
def shifted (order : Order) : Format where
  given := .text (match order with
    | .native => "%ri%5iA%y"
    | .big => "%ri%5biA%y"
    | .little => "%ri%5liA%y")
  items :=
    let behind := match order with
      | .native => 6
      | .big | .little => 7
    [⟨0, .field ⟨.bit, 1, .native, false, some .random, .scalar⟩⟩,
      ⟨3, .field (.run 5 order false)⟩, ⟨behind, .literal [65]⟩,
      ⟨behind + 1, .field ⟨.byte, 1, .native, false, none, .scalar⟩⟩]

theorem compile_shifted (order : Order) :
    (compile (shifted order).given).outcome = .ok (shifted order) := by
  cases order with
  | native =>
      exact @compile_of_piecesWithin "%ri%5iA%y" 9 (shifted .native).items (by decide)
        (by decide +kernel)
  | big =>
      exact @compile_of_piecesWithin "%ri%5biA%y" 10 (shifted .big).items (by decide)
        (by decide +kernel)
  | little =>
      exact @compile_of_piecesWithin "%ri%5liA%y" 10 (shifted .little).items (by decide)
        (by decide +kernel)

/-- Six in five bits is twelve in the big-endian order and forty-eight in the little-endian one. -/
theorem bit_orders_agree_shifted :
    (∃ record,
      (BitRecord.pack (shifted .native).given (.list [.integer 6, .integer 200])
        (.cyclic #[1])).outcome = .ok record ∧
      (BitRecord.pack (shifted .big).given (.list [.integer 12, .integer 200])
        (.cyclic #[1])).outcome = .ok record ∧
      (BitRecord.pack (shifted .little).given (.list [.integer 48, .integer 200])
        (.cyclic #[1])).outcome = .ok record) ∧
    (BitRecord.unpack (shifted .big).given (.buffer .bytes [152, 65, 200]) .null).outcome =
      .ok [.integer 12, .integer 200] ∧
    (BitRecord.unpack (shifted .little).given (.buffer .bytes [152, 65, 200]) .null).outcome =
      .ok [.integer 48, .integer 200] := by
  obtain ⟨_, agree⟩ := @bit_orders_agree (shifted .native).given (shifted .native)
    ((shifted .native).directives.take 1) ((shifted .native).directives.drop 2) 5 false
    (compile_shifted .native) rfl
  obtain ⟨big_packs, big_reads⟩ := agree .big _ _ (compile_shifted .big) rfl
  obtain ⟨little_packs, little_reads⟩ := agree .little _ _ (compile_shifted .little) rfl
  have in_range := RandomSource.inRange_cyclic (show 0 < (#[1] : Array Int).size by decide)
  have accepted : ∃ arguments,
      ((shifted .native).bind (.list [.integer 6, .integer 200])).outcome = .ok arguments :=
    ⟨_, rfl⟩
  have unpacked : (BitRecord.unpack (shifted .native).given (.buffer .bytes [152, 65, 200])
      .null).outcome = .ok [.integer 6, .integer 200] := by
    rw [unpack_of_compile (compile_shifted .native)]
    decide +kernel
  obtain ⟨_, _, big_same, succeeds⟩ := big_packs 6 (.list [.integer 6, .integer 200])
    (.list [.integer 12, .integer 200]) [] [.integer 200] (by decide) rfl ⟨rfl, rfl, rfl, rfl⟩
    ⟨rfl, rfl, rfl, rfl⟩
  obtain ⟨_, _, little_same, _⟩ := little_packs 6 (.list [.integer 6, .integer 200])
    (.list [.integer 48, .integer 200]) [] [.integer 200] (by decide) rfl ⟨rfl, rfl, rfl, rfl⟩
    ⟨rfl, rfl, rfl, rfl⟩
  obtain ⟨record, packed⟩ := succeeds accepted _ in_range
  obtain ⟨big_before, _, _, big_front, _, big_whole, big_read⟩ := (big_reads _ _).2 _ unpacked
  obtain ⟨little_before, _, _, little_front, _, little_whole, little_read⟩ :=
    (little_reads _ _).2 _ unpacked
  refine ⟨⟨record, packed, (big_same _ _).mp packed, (little_same _ _).mp packed⟩,
    big_read.trans ?_, little_read.trans ?_⟩
  · obtain rfl := List.eq_nil_of_length_eq_zero big_front
    cases big_whole
    rfl
  · obtain rfl := List.eq_nil_of_length_eq_zero little_front
    cases little_whole
    rfl

end Format

end BitRecord
