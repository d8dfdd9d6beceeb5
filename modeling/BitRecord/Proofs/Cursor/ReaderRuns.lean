/-
# Runs of a reader

A step requests a number of bits (`Step.amount`). It is refused when fewer remain,
when the number is negative and when it requests the integer of no bits;
otherwise it reads the bits at the position of the reader. `passUnsigned` applies
`Bits.toUnsigned?` only after it has moved the reader. Even so no refusal moves
it, because the only refusal that comes late is about no bits. So a run has the
same results without its refused steps.
-/

import BitRecord.Cursor.Motion
import BitRecord.Proofs.Bits.ByteOrder
import BitRecord.Proofs.Cursor.Mirror
import BitRecord.Proofs.Record.Refusal

namespace BitRecord.Reader

/-- The number of bits that a step requests at a position. -/
def Step.amount (position : Nat) : Step → Int
  | .align => toBoundary position
  | .bits amount => amount
  | .unsigned _ width => width
  | .bytes amount => amount * 8

/-- Whether a step requests a negative number of bits, or the integer of no bits. -/
def Step.Absurd (position : Nat) (step : Step) : Prop :=
  step.amount position < 0 ∨ ∃ order, step = .unsigned order 0

/-- The result of a step for the bits that it has read. -/
def Step.reading (bits : Bits) : Step → Taken
  | .align => .padding bits.length
  | .bits _ => .bits bits
  | .unsigned order _ => .unsigned (bits.valueIn order)
  | .bytes _ => .bytes bits.toBytes

/-- A reader over the bits of a record, at a position in them or at their end. -/
structure Stands (record : Bytes) (reader : Reader) : Prop where
  content : reader.bits.toList = Bits.ofBytes record
  inside : reader.position ≤ 8 * record.length

/-- `position` and `remaining` add up to eight times the length. -/
def Balanced (record : Bytes) (reader : Reader) : Prop :=
  reader.length = record.length ∧ reader.position + reader.remaining = 8 * reader.length ∧
    reader.position ≤ 8 * reader.length

/-- The contract of one step of a reader over a record: `standing` is the reader before it, `made`
its result and `left` the reader after it. -/
structure Keeps (record : Bytes) (step : Step) (standing : Reader) (made : Except Cause Taken)
    (left : Reader) : Prop where
  /-- Position and remaining bits add up before the step. -/
  balanced : Balanced record standing
  /-- They add up after it. -/
  balanced_left : Balanced record left
  /-- The position never decreases. -/
  forward : standing.position ≤ left.position
  /-- A result is that of the bits at the position, which moves by their number. -/
  taken : ∀ taken, made = .ok taken → ∃ amount : Nat,
    step.amount standing.position = amount ∧
    taken = step.reading (((Bits.ofBytes record).drop standing.position).take amount) ∧
    left.position = standing.position + amount
  /-- Alignment always succeeds and moves to the next byte boundary. -/
  aligned : step = .align → ∃ padding < 8, made = .ok (.padding padding) ∧
    left.position = standing.position + padding ∧ left.position % 8 = 0
  /-- A request of more bits than remain is refused with `truncated`, whose message quotes the
  number of bits, the position and the remaining bits. When the number has more digits than
  `DigitLimit.digits`, the cause is `longInteger` instead. -/
  truncated : (standing.remaining : Int) < step.amount standing.position →
    ∃ (amount : Nat) (cause : Cause), step.amount standing.position = amount ∧
      made = .error cause ∧
      (amount < DigitLimit.bound →
        cause = .truncated amount standing.position standing.remaining ∧
        cause.family = .truncatedInput ∧
        cause.message =
        s!"{amount} bits requested at bit {standing.position} but only {standing.remaining} remain")
        ∧
      (DigitLimit.bound ≤ amount → cause = .longInteger ∧ cause.family = .wrongValue ∧
        cause.message = DigitLimit.writeMessage)
  /-- No other step is refused but an absurd one. -/
  refused : (∃ cause, made = .error cause) ↔
    (standing.remaining : Int) < step.amount standing.position ∨ step.Absurd standing.position
  /-- A refused step leaves the reader as it was. -/
  unmoved : ∀ cause, made = .error cause → left = standing

variable {reader standing left start : Reader} {record : Bytes} {step : Step} {amount : Nat}
  {made : Except Cause Taken}

theorem take_of_negative {amount : Int} (negative : amount < 0) :
    reader.take amount = .error .unrepresentable := by
  rw [take, if_neg (by omega), if_pos negative]

theorem take_of_short {amount : Int} (short : reader.remaining < amount) :
    reader.take amount = .error (reader.truncation amount.toNat) := by
  rw [take, if_pos short]

/-- Below the digit limit `truncation` is `truncated`, and its message quotes the number of bits. -/
theorem truncation_of_lt (reader : Reader) (short : amount < DigitLimit.bound) :
    reader.truncation amount = .truncated amount reader.position reader.remaining ∧
      (reader.truncation amount).family = .truncatedInput ∧
      (reader.truncation amount).message =
      s!"{amount} bits requested at bit {reader.position} but only {reader.remaining} remain" := by
  rw [truncation, DigitLimit.canWrite_natCast_iff.mpr short, Cause.ifWritten_true]
  exact ⟨rfl, rfl, rfl⟩

/-- Beyond the digit limit `truncation` is `longInteger`. -/
theorem truncation_of_le (reader : Reader) (long : DigitLimit.bound ≤ amount) :
    reader.truncation amount = .longInteger ∧
      (reader.truncation amount).family = .wrongValue ∧
      (reader.truncation amount).message = DigitLimit.writeMessage := by
  rw [truncation, DigitLimit.canWrite_natCast_eq_false_iff.mpr long, Cause.ifWritten_false]
  exact ⟨rfl, rfl, rfl⟩

/-- `passBits` moves the reader when `take` succeeds. -/
theorem passBits_of_ok {amount : Int} {bits : Bits}
    (taken : reader.take amount = .ok (bits, left)) :
    (passBits amount).run.run reader = (.ok bits, left) := by
  rw [passBits, Motion.run_bind_of_ok (Motion.run_get reader), taken]
  rfl

/-- `passBits` leaves the reader as it was when `take` refuses. -/
theorem passBits_of_error {amount : Int} {cause : Cause}
    (refused : reader.take amount = .error cause) :
    (passBits amount).run.run reader = (.error cause, reader) := by
  rw [passBits, Motion.run_bind_of_ok (Motion.run_get reader), refused]
  rfl

/-- `passPadding` on a byte boundary changes nothing. -/
theorem passPadding_of_aligned (aligned : reader.padding = 0) :
    passPadding.run.run reader = (.ok 0, reader) := by
  rw [passPadding, Motion.run_bind_of_ok (Motion.run_get reader),
    if_neg (not_not_intro aligned), aligned]
  rfl

/-- `passPadding` elsewhere passes the bits up to the boundary. -/
theorem passPadding_of_unaligned (unaligned : reader.padding ≠ 0) :
    passPadding.run.run reader =
      (passBits reader.padding >>= fun _ => pure reader.padding : Motion Reader Nat).run.run
        reader := by
  rw [passPadding, Motion.run_bind_of_ok (Motion.run_get reader), if_pos unaligned]

/-- `attempt` refuses a step for more bits than remain with `truncation`. -/
theorem attempt_of_short (short : reader.remaining < step.amount reader.position) :
    (attempt step).run.run reader =
      (.error (reader.truncation (step.amount reader.position).toNat), reader) := by
  have refused := passBits_of_error (take_of_short short)
  cases step with
  | align =>
      have unaligned : reader.padding ≠ 0 := by
        rw [padding]
        simp only [Step.amount] at short
        omega
      refine Motion.run_map_of_error ((passPadding_of_unaligned unaligned).trans ?_) _
      exact Motion.run_bind_of_error refused _
  | bits amount => exact Motion.run_map_of_error refused _
  | unsigned order width =>
      exact Motion.run_map_of_error (Motion.run_bind_of_error refused _) _
  | bytes amount =>
      exact Motion.run_map_of_error (Motion.run_bind_of_error refused _) _

/-- `attempt` refuses an absurd step with `unrepresentable` and leaves the reader as it was. The
integer of no bits is refused only after its bits are passed, and these are none. -/
theorem attempt_of_absurd (absurd : step.Absurd reader.position) :
    (attempt step).run.run reader = (.error .unrepresentable, reader) := by
  rcases absurd with negative | ⟨order, rfl⟩
  · have refused := passBits_of_error (@take_of_negative reader _ negative)
    cases step with
    | align =>
        simp only [Step.amount] at negative
        omega
    | bits amount => exact Motion.run_map_of_error refused _
    | unsigned order width =>
        exact Motion.run_map_of_error (Motion.run_bind_of_error refused _) _
    | bytes amount => exact Motion.run_map_of_error (Motion.run_bind_of_error refused _) _
  · have nothing := passBits_of_ok (take_of_le (Nat.zero_le reader.remaining))
    exact Motion.run_map_of_error (Motion.run_bind_of_ok nothing _) _

/-- `attempt` makes every other step on its bits and moves over them. -/
theorem attempt_of_le (sensible : ¬ step.Absurd reader.position)
    (asked : step.amount reader.position = amount) (enough : amount ≤ reader.remaining) :
    (attempt step).run.run reader =
      (.ok (step.reading (reader.rest.take amount)), reader.move amount) := by
  have passed := passBits_of_ok (take_of_le enough)
  have length : (reader.rest.take amount).length = amount := by
    rw [List.length_take, length_rest, Nat.min_eq_left enough]
  cases step with
  | align =>
      obtain rfl : reader.padding = amount := Int.ofNat_inj.mp asked
      rw [Step.reading, length]
      refine Motion.run_map_of_ok ?_ _
      by_cases aligned : reader.padding = 0
      · rw [passPadding_of_aligned aligned, aligned, move_zero]
      · exact (passPadding_of_unaligned aligned).trans (Motion.run_bind_of_ok passed _)
  | bits requested =>
      obtain rfl : requested = amount := asked
      exact Motion.run_map_of_ok passed _
  | unsigned order width =>
      obtain rfl : width = amount := asked
      have full : reader.rest.take amount ≠ [] := by
        rintro none
        rw [none, List.length_nil] at length
        exact sensible (.inr ⟨order, by rw [← length]; rfl⟩)
      refine Motion.run_map_of_ok ((Motion.run_bind_of_ok passed _).trans ?_) _
      rw [Bits.toUnsigned?_of_ne_nil order full]
      rfl
  | bytes count =>
      have bits : count * 8 = amount := asked
      refine Motion.run_map_of_ok ?_ _
      rw [passBytes, bits]
      exact Motion.run_bind_of_ok passed _

/-- When `take` succeeds it gives the front of the rest and moves by its length. -/
theorem exists_of_take {amount : Int} {bits : Bits}
    (taken : reader.take amount = .ok (bits, left)) :
    ∃ count : Nat, amount = count ∧ count ≤ reader.remaining ∧ bits = reader.rest.take count ∧
      left = reader.move count := by
  by_cases short : (reader.remaining : Int) < amount
  · rw [take_of_short short] at taken
    contradiction
  · by_cases negative : amount < 0
    · rw [take_of_negative negative] at taken
      contradiction
    · obtain ⟨count, rfl⟩ := Int.eq_ofNat_of_zero_le (Int.not_lt.mp negative)
      have enough : count ≤ reader.remaining := by omega
      rw [take_of_le enough] at taken
      obtain ⟨rfl, rfl⟩ := Prod.mk.inj (Except.ok.inj taken)
      exact ⟨count, rfl, enough, rfl, rfl⟩

/-- Only the empty string has no `toUnsigned?`, and taking it moves nothing. -/
theorem eq_of_take_of_toUnsigned? {amount : Int} {bits : Bits} {order : Order}
    (taken : reader.take amount = .ok (bits, left)) (unwritten : bits.toUnsigned? order = none) :
    left = reader := by
  obtain ⟨count, rfl, enough, rfl, rfl⟩ := exists_of_take taken
  have nothing : reader.rest.take count = [] := by
    by_contra full
    rw [Bits.toUnsigned?_of_ne_nil order full] at unwritten
    contradiction
  have length := congrArg List.length nothing
  rw [List.length_take, length_rest, Nat.min_eq_left enough, List.length_nil] at length
  rw [length, move_zero]

private theorem attempt_align_eq_perform (reader : Reader) :
    (attempt .align).run.run reader = ((reader.perform .align).map (·.1), reader.after .align) := by
  by_cases aligned : reader.padding = 0
  · rw [after, perform, align, if_pos aligned, aligned]
    exact Motion.run_map_of_ok (passPadding_of_aligned aligned) _
  · have passed := passPadding_of_unaligned aligned
    rw [after, perform, align, if_neg aligned]
    cases taken : reader.take reader.padding with
    | error cause =>
        have refused := passBits_of_error taken
        exact Motion.run_map_of_error (passed.trans (Motion.run_bind_of_error refused _)) _
    | ok result =>
        have moved := passBits_of_ok taken
        exact Motion.run_map_of_ok (passed.trans (Motion.run_bind_of_ok moved _)) _

/-- `passUnsigned` moves the reader before `toUnsigned?` refuses its bits, and `takeUnsigned` does
not: these bits are none, so the readers are the same. -/
private theorem attempt_unsigned_eq_perform (order : Order) (width : Int) (reader : Reader) :
    (attempt (.unsigned order width)).run.run reader =
      ((reader.perform (.unsigned order width)).map (·.1),
        reader.after (.unsigned order width)) := by
  rw [after, perform]
  cases taken : reader.take width with
  | error cause =>
      have refused : reader.takeUnsigned order width = .error cause := by
        rw [takeUnsigned, taken]
        rfl
      rw [refused]
      exact Motion.run_map_of_error (Motion.run_bind_of_error (passBits_of_error taken) _) _
  | ok result =>
      obtain ⟨bits, left⟩ := result
      have passed := passBits_of_ok taken
      cases written : bits.toUnsigned? order with
      | none =>
          have refused : reader.takeUnsigned order width = .error .unrepresentable := by
            simp only [takeUnsigned, taken, bind, Except.bind, written]
          rw [refused]
          refine Motion.run_map_of_error ((Motion.run_bind_of_ok passed _).trans ?_) _
          rw [written, eq_of_take_of_toUnsigned? taken written]
          rfl
      | some value =>
          have answered : reader.takeUnsigned order width = .ok (value, left) := by
            simp only [takeUnsigned, taken, bind, Except.bind, written]
          rw [answered]
          refine Motion.run_map_of_ok ((Motion.run_bind_of_ok passed _).trans ?_) _
          rw [written]
          rfl

/-- `attempt` gives the result of `perform` and the reader of `after`. -/
theorem attempt_eq_perform (step : Step) (reader : Reader) :
    (attempt step).run.run reader = ((reader.perform step).map (·.1), reader.after step) := by
  cases step with
  | align => exact attempt_align_eq_perform reader
  | bits amount =>
      rw [after, perform]
      cases taken : reader.take amount with
      | error cause => exact Motion.run_map_of_error (passBits_of_error taken) _
      | ok result => exact Motion.run_map_of_ok (passBits_of_ok taken) _
  | unsigned order width => exact attempt_unsigned_eq_perform order width reader
  | bytes amount =>
      rw [after, perform, takeBytes]
      cases taken : reader.take (amount * 8) with
      | error cause =>
          exact Motion.run_map_of_error (Motion.run_bind_of_error (passBits_of_error taken) _) _
      | ok result =>
          exact Motion.run_map_of_ok (Motion.run_bind_of_ok (passBits_of_ok taken) _) _

/-- `attemptAll` is `run` with `afterAll`. -/
theorem attemptAll_eq_run (steps : List Step) (reader : Reader) :
    (attemptAll steps).run reader = ((reader.run steps).map (·.2), reader.afterAll steps) := by
  induction steps generalizing reader with
  | nil => rfl
  | cons step steps ih =>
      exact Motion.all_cons (attempt_eq_perform step reader) (ih (reader.after step))

namespace Stands

theorem length_eq (stands : Stands record reader) : reader.length = record.length := by
  have size := congrArg List.length stands.content
  rw [Array.length_toList, Bits.length_ofBytes] at size
  rw [length, size]
  omega

theorem balance (stands : Stands record reader) :
    reader.position + reader.remaining = 8 * record.length := by
  have size := congrArg List.length stands.content
  rw [Array.length_toList, Bits.length_ofBytes] at size
  have inside := stands.inside
  rw [remaining, size]
  omega

theorem rest_eq (stands : Stands record reader) :
    reader.rest = (Bits.ofBytes record).drop reader.position := by
  rw [rest, stands.content]

/-- The next byte boundary is inside a record or at its end, because a record is whole bytes. -/
theorem padding_le (stands : Stands record reader) : reader.padding ≤ reader.remaining := by
  have balance := stands.balance
  rw [padding, toBoundary]
  omega

theorem move (stands : Stands record reader) (enough : amount ≤ reader.remaining) :
    Stands record (reader.move amount) := by
  refine ⟨stands.content, ?_⟩
  have balance := stands.balance
  change reader.position + amount ≤ _
  omega

theorem balanced (stands : Stands record reader) : Balanced record reader := by
  rw [Balanced, stands.length_eq]
  exact ⟨rfl, stands.balance, stands.inside⟩

/-- Alignment is never refused. -/
theorem sensible_align (stands : Stands record reader) :
    ¬ (reader.remaining : Int) < Step.align.amount reader.position ∧
      ¬ Step.align.Absurd reader.position := by
  have enough := stands.padding_le
  rw [padding] at enough
  refine ⟨?_, ?_⟩
  · rw [Step.amount]
    omega
  · rintro (negative | ⟨order, other⟩)
    · rw [Step.amount] at negative
      omega
    · contradiction

/-- A refused step keeps the contract: it is no alignment, it requests more bits than remain or is
absurd, and in the first case its cause is `truncation`. -/
private theorem keeps_of_refused (stands : Stands record standing) {cause : Cause}
    (other : step ≠ .align)
    (reason : (standing.remaining : Int) < step.amount standing.position ∨
      step.Absurd standing.position)
    (truncated : (standing.remaining : Int) < step.amount standing.position →
      ∃ amount : Nat, step.amount standing.position = amount ∧
        cause = standing.truncation amount) :
    Keeps record step standing (.error cause) standing where
  balanced := stands.balanced
  balanced_left := stands.balanced
  forward := Nat.le_refl _
  taken := fun taken answered => by contradiction
  aligned := fun align => absurd align other
  truncated := by
    intro short
    obtain ⟨amount, requested, rfl⟩ := truncated short
    exact ⟨amount, _, requested, rfl, truncation_of_lt standing, truncation_of_le standing⟩
  refused := iff_of_true ⟨cause, rfl⟩ reason
  unmoved := fun _ _ => rfl

/-- A step that gets its bits keeps the contract. -/
private theorem keeps_of_taken (stands : Stands record standing)
    (sensible : ¬ step.Absurd standing.position)
    (requested : step.amount standing.position = amount) (enough : amount ≤ standing.remaining) :
    Keeps record step standing (.ok (step.reading (standing.rest.take amount)))
      (standing.move amount) where
  balanced := stands.balanced
  balanced_left := (stands.move enough).balanced
  forward := Nat.le_add_right _ _
  taken := by
    intro taken answered
    rw [← stands.rest_eq]
    exact ⟨amount, requested, (Except.ok.inj answered).symm, rfl⟩
  aligned := by
    rintro rfl
    obtain rfl : standing.padding = amount := Int.ofNat_inj.mp requested
    refine ⟨standing.padding, toBoundary_lt _, ?_, rfl, add_toBoundary_mod _⟩
    rw [Step.reading, List.length_take, length_rest, Nat.min_eq_left enough]
  truncated := fun short => absurd short (by omega)
  refused := by
    refine iff_of_false (fun ⟨_, refused⟩ => by contradiction) ?_
    rintro (short | vain)
    · omega
    · exact sensible vain
  unmoved := fun _ refused => by contradiction

/-- One step keeps the contract, and the reader stands in the record again. -/
theorem keeps (stands : Stands record standing)
    (asked : (attempt step).run.run standing = (made, left)) :
    Keeps record step standing made left ∧ Stands record left := by
  by_cases short : (standing.remaining : Int) < step.amount standing.position
  · have other : step ≠ .align := by
      rintro rfl
      exact stands.sensible_align.1 short
    rw [attempt_of_short short] at asked
    obtain ⟨rfl, rfl⟩ := Prod.mk.inj asked
    have natural : step.amount standing.position =
        (step.amount standing.position).toNat := by omega
    exact ⟨stands.keeps_of_refused other (.inl short) fun _ => ⟨_, natural, rfl⟩, stands⟩
  · by_cases vain : step.Absurd standing.position
    · have other : step ≠ .align := by
        rintro rfl
        exact stands.sensible_align.2 vain
      rw [attempt_of_absurd vain] at asked
      obtain ⟨rfl, rfl⟩ := Prod.mk.inj asked
      exact ⟨stands.keeps_of_refused other (.inr vain) fun own => absurd own short, stands⟩
    · have natural : 0 ≤ step.amount standing.position :=
        Int.not_lt.mp fun negative => vain (.inl negative)
      obtain ⟨amount, requested⟩ := Int.eq_ofNat_of_zero_le natural
      have enough : amount ≤ standing.remaining := by omega
      rw [attempt_of_le vain requested enough] at asked
      obtain ⟨rfl, rfl⟩ := Prod.mk.inj asked
      exact ⟨stands.keeps_of_taken vain requested enough, stands.move enough⟩

/-- A run of `attemptAll` leaves the reader in the record. -/
theorem run (stands : Stands record start) (steps : List Step) :
    Stands record ((attemptAll steps).run start).2 :=
  Motion.all_keeps (fun _ _ stands => (stands.keeps rfl).2) steps stands

end Stands

/-- At every step of a run of `attemptAll` over a value the contract `Keeps` holds, whatever the
steps before it have done: position and remaining bits add up to the record, a step gets the bits at
the position or is refused, alignment never is, and a run without a refused step gives the other
results unchanged. -/
theorem reader_keeps_through_runs {buffer length : Value} {bytes : Bytes} {size : Nat}
    (held : buffer.asBytes? = some bytes) (asked : length.AsksFor bytes.length size) :
    ∃ start, ofValue buffer length = .ok start ∧ start.length = size ∧ start.position = 0 ∧
      (∀ steps, (attemptAll steps).run start =
        ((start.run steps).map (·.2), start.afterAll steps)) ∧
      ∀ before step after, ∃ earlier standing made left later final,
        (attemptAll before).run start = (earlier, standing) ∧
        (attempt step).run.run standing = (made, left) ∧
        (attemptAll after).run left = (later, final) ∧
        earlier.length = before.length ∧
        (attemptAll (before ++ step :: after)).run start = (earlier ++ made :: later, final) ∧
        Keeps (bytes.take size) step standing made left ∧
        ((∃ cause, made = .error cause) →
          (attemptAll (before ++ after)).run start = (earlier ++ later, final)) := by
  let start := atBit (bytes.take size) 0
  have front : (bytes.take size).length = size := List.length_take_of_le asked.le
  have stands : Stands (bytes.take size) start := ⟨by simp [start, atBit], Nat.zero_le _⟩
  refine ⟨start, ofValue_of_asksFor held asked, stands.length_eq.trans front, rfl,
    fun steps => attemptAll_eq_run steps start, fun before step after => ?_⟩
  rcases first : (attemptAll before).run start with ⟨earlier, standing⟩
  rcases asked : (attempt step).run.run standing with ⟨made, left⟩
  rcases others : (attemptAll after).run left with ⟨later, final⟩
  have count : earlier.length = before.length := by
    rw [← Motion.length_all attempt before start, ← attemptAll, first]
  have stands_there : Stands (bytes.take size) standing := by
    have kept := stands.run before
    rwa [first] at kept
  obtain ⟨keeps, -⟩ := stands_there.keeps asked
  refine ⟨earlier, standing, made, left, later, final, rfl, asked, others, count,
    Motion.all_append first (Motion.all_cons asked others), keeps, ?_⟩
  rintro ⟨cause, refused⟩
  rw [keeps.unmoved cause refused] at others
  exact Motion.all_append first others

/-- The integer of no bits in the middle of a run is refused, and the other results are those of the
run without it. -/
theorem reader_keeps_through_runs_no_bits :
    ∃ start earlier cause later final,
      ofValue (.buffer (.view .whole) [0x12, 0x34, 0x56]) (.integer 2) = .ok start ∧
      (attemptAll [.bits 3, .unsigned .big 0, .align, .bytes 2]).run start =
        (earlier ++ .error cause :: later, final) ∧
      (attemptAll [.bits 3, .align, .bytes 2]).run start = (earlier ++ later, final) := by
  obtain ⟨start, readable, -, -, -, runs⟩ :=
    @reader_keeps_through_runs (.buffer (.view .whole) [0x12, 0x34, 0x56]) (.integer 2)
        [0x12, 0x34, 0x56] 2
      rfl (.inr ⟨rfl, by decide⟩)
  obtain ⟨earlier, standing, made, left, later, final, -, -, -, -, whole, keeps, without⟩ :=
    runs [.bits 3] (.unsigned .big 0) [.align, .bytes 2]
  obtain ⟨cause, rfl⟩ := keeps.refused.mpr (.inr (.inr ⟨.big, rfl⟩))
  exact ⟨start, earlier, cause, later, final, readable, whole, without ⟨cause, rfl⟩⟩

/-- A request of `DigitLimit.bound` bits is refused with `longInteger`, which is not of the family
of truncated input. -/
theorem reader_keeps_through_runs_unwritten :
    ∃ start, ofValue (.buffer .bytes [0]) .null = .ok start ∧
      start.remaining = 8 ∧ 8 < DigitLimit.bound ∧
      (attempt (.bits DigitLimit.bound)).run.run start = (.error .longInteger, start) ∧
      Cause.longInteger.family = .wrongValue := by
  have large : 8 < DigitLimit.bound :=
    DigitLimit.lt_bound_of_lt_pow (show 8 < 10 ^ (1 : Nat) by decide) (by decide)
  have refused := @attempt_of_short (ofBytes [0]) (.bits DigitLimit.bound)
    (Int.ofNat_lt.mpr large)
  have unwritten := (truncation_of_le (ofBytes [0]) (Nat.le_refl DigitLimit.bound)).1
  exact ⟨ofBytes [0], ofValue_null [0], rfl, large,
    refused.trans (congrArg (fun cause => (Except.error cause, ofBytes [0])) unwritten), rfl⟩

end BitRecord.Reader
