/-
# What encoding writes

Encoding a field adds the image of its payload, or of its fill, to a record
under way, and leaves no events but those of `paddingEvents`. The numbers of a
random fill are the answers of the source to the requests of the field, one
after the other, each written from its most significant bit whatever the order
of the field.
-/

import BitRecord.Codec.Encode
import BitRecord.Proofs.Codec.Entries

namespace BitRecord

namespace RandomSource

/-- The answers of a source to requests made one after the other, up to the first refusal. -/
def answers (source : RandomSource) : (asked : Array Nat) → List Nat → Except Cause (List Nat)
  | _, [] => .ok []
  | asked, width :: widths => do
      let number ← source.answer asked width
      let numbers ← source.answers (asked.push width) widths
      return number :: numbers

variable {source : RandomSource}

/-- A source answers the first of several requests and then the others. -/
theorem answers_cons_eq_ok_iff {asked : Array Nat} {width : Nat} {widths numbers : List Nat} :
    source.answers asked (width :: widths) = .ok numbers ↔
      ∃ number others, source.answer asked width = .ok number ∧
        source.answers (asked.push width) widths = .ok others ∧ numbers = number :: others := by
  cases first : source.answer asked width with
  | error cause => simp [answers, first, bind, Except.bind]
  | ok number =>
      cases rest : source.answers (asked.push width) widths with
      | error cause => simp [answers, first, rest, bind, Except.bind]
      | ok others => simp [answers, first, rest, bind, Except.bind, pure, Except.pure, eq_comm]

/-- Requests in two parts are answered part by part. -/
theorem answers_append_eq_ok_iff {asked : Array Nat} {first second numbers : List Nat} :
    source.answers asked (first ++ second) = .ok numbers ↔
      ∃ front back, source.answers asked first = .ok front ∧
        source.answers (asked ++ first) second = .ok back ∧ numbers = front ++ back := by
  induction first generalizing asked numbers with
  | nil => simp [answers]
  | cons width first ih =>
      have moved : asked.push width ++ first = asked ++ (width :: first) := by simp
      rw [List.cons_append, answers_cons_eq_ok_iff]
      apply Iff.intro
      · intro answered
        obtain ⟨number, others, head, tail, rfl⟩ := answered
        obtain ⟨front, back, front_answered, back_answered, rfl⟩ := ih.mp tail
        rw [moved] at back_answered
        exact ⟨number :: front, back,
          answers_cons_eq_ok_iff.mpr ⟨number, front, head, front_answered, rfl⟩, back_answered, rfl⟩
      · intro parts
        obtain ⟨numbers, back, answered, back_answered, rfl⟩ := parts
        obtain ⟨number, front, head, front_answered, rfl⟩ := answers_cons_eq_ok_iff.mp answered
        rw [← moved] at back_answered
        exact ⟨number, front ++ back, head,
          ih.mpr ⟨front, back, front_answered, back_answered, rfl⟩, rfl⟩

/-- There is one answer for each request. -/
theorem length_of_answers {asked : Array Nat} {widths numbers : List Nat}
    (answered : source.answers asked widths = .ok numbers) : numbers.length = widths.length := by
  induction widths generalizing asked numbers with
  | nil =>
      obtain rfl : [] = numbers := by simpa [answers] using answered
      rfl
  | cons width widths ih =>
      obtain ⟨number, others, _, tail, rfl⟩ := answers_cons_eq_ok_iff.mp answered
      rw [List.length_cons, List.length_cons, ih tail]

/-- The answers of a source in range are below `2 ^ width`. -/
theorem InRange.answer_lt (in_range : source.InRange) {asked : Array Nat} {width number : Nat}
    (answered : source.answer asked width = .ok number) : number < 2 ^ width := by
  obtain ⟨given, given_answered, small⟩ := in_range asked width
  rw [answered, Except.ok.injEq] at given_answered
  rwa [given_answered]

/-- The answers of a source in range fit the widths requested, when none of these is zero. -/
theorem InRange.fits (in_range : source.InRange) {asked : Array Nat} {widths numbers : List Nat}
    (positive : ∀ width ∈ widths, 0 < width)
    (answered : source.answers asked widths = .ok numbers) :
    ∀ entry ∈ List.zipWith Entry.mk widths numbers, entry.Fits := by
  induction widths generalizing asked numbers with
  | nil => exact List.forall_mem_nil _
  | cons width widths ih =>
      obtain ⟨number, others, head, tail, rfl⟩ := answers_cons_eq_ok_iff.mp answered
      obtain ⟨width_pos, others_pos⟩ := List.forall_mem_cons.mp positive
      exact List.forall_mem_cons.mpr ⟨⟨width_pos, in_range.answer_lt head⟩, ih others_pos tail⟩

/-- A source in range answers all requests. -/
theorem InRange.exists_answers (in_range : source.InRange) (asked : Array Nat)
    (widths : List Nat) : ∃ numbers, source.answers asked widths = .ok numbers := by
  induction widths generalizing asked with
  | nil => exact ⟨[], rfl⟩
  | cons width widths ih =>
      obtain ⟨number, head, _⟩ := in_range asked width
      obtain ⟨numbers, tail⟩ := ih (asked.push width)
      exact ⟨number :: numbers, answers_cons_eq_ok_iff.mpr ⟨number, numbers, head, tail, rfl⟩⟩

end RandomSource

namespace Writer

@[simp]
theorem append_nil (writer : Writer) : writer.append [] = writer := by
  simp [append]

@[simp]
theorem append_append (writer : Writer) (first second : Bits) :
    (writer.append first).append second = writer.append (first ++ second) := by
  simp only [append]
  congr 1
  exact Array.ext' (by simp)

end Writer

namespace Emission

/-- An emission with more bits and more requests. -/
def extend (emission : Emission) (bits : Bits) (widths : List Nat) : Emission :=
  ⟨emission.writer.append bits, emission.asked ++ widths⟩

@[simp]
theorem extend_nil (emission : Emission) : emission.extend [] [] = emission := by
  simp [extend]

@[simp]
theorem extend_extend (emission : Emission) (first second : Bits) (asked others : List Nat) :
    (emission.extend first asked).extend second others =
      emission.extend (first ++ second) (asked ++ others) := by
  simp only [extend, Writer.append_append]
  congr 1
  exact Array.ext' (by simp)

theorem append_eq_extend (emission : Emission) (bits : Bits) :
    emission.append bits = emission.extend bits [] := by
  simp [append, extend]

theorem align_eq_extend (emission : Emission) :
    emission.align =
      emission.extend (List.replicate (toBoundary emission.writer.position) false) [] := by
  simp [align, extend, Writer.align, Writer.padding]

theorem appendBytes_eq_extend (emission : Emission) (bytes : Bytes) :
    emission.appendBytes bytes = emission.extend (Bits.ofBytes bytes) [] := by
  simp [appendBytes, extend, Writer.appendBytes]

@[simp]
theorem position_extend (emission : Emission) (bits : Bits) (widths : List Nat) :
    (emission.extend bits widths).writer.position = emission.writer.position + bits.length :=
  Writer.position_append _ _

/-- `appendUnsigned` of an integer that fits adds its word. -/
theorem appendUnsigned_eq (emission : Emission) (order : Order) {width value : Nat}
    (width_pos : 0 < width) (small : value < 2 ^ width) :
    emission.appendUnsigned order width value =
      pure (emission.extend ((Bits.ofNat width value).arrange order) []) := by
  rw [appendUnsigned, Writer.appendUnsigned?, Bits.ofUnsigned?_natCast order width_pos small]
  simp [extend]
  rfl

/-- `appendRandom` adds the answer of the source from its most significant bit. -/
theorem appendRandom_eq {source : RandomSource} {emission : Emission} {width number : Nat}
    (answered : source.answer emission.asked width = .ok number)
    (fits : Entry.Fits ⟨width, number⟩) :
    emission.appendRandom source width =
      ⟨[.drew width], .ok (emission.extend (Bits.ofNat width number) [width])⟩ := by
  have added := appendUnsigned_eq ⟨emission.writer, emission.asked.push width⟩ .big fits.1 fits.2
  rw [appendRandom, answered]
  change (Traced.note (.drew width) >>= fun _ =>
    appendUnsigned ⟨emission.writer, emission.asked.push width⟩ .big width number) = _
  rw [added, Bits.arrange_big]
  simp only [Traced.note, Traced.ok_bind, Traced.events_pure, Traced.outcome_pure, extend,
    Array.appendList_cons, Array.appendList_nil, List.append_nil]

end Emission

namespace Field

/-- The bits of a filled field. The numbers of a random fill stand in the order they were drawn. -/
def fillImage (field : Field) (mode : Fill) (numbers : List Nat) : Bits :=
  match mode with
  | .zeros => List.replicate field.bitSize false
  | .ones => List.replicate field.bitSize true
  | .random => (List.zipWith Bits.ofNat field.requests numbers).flatten

/-- The events of writing a payload: a `padding` event of a string that is too short. -/
def paddingEvents (field : Field) : Payload → List Event
  | .bytes data =>
      if data.length < field.count then [.padding data.length field.count] else []
  | _ => []

variable {field : Field}

theorem requests_of_fill {mode : Fill} (fill : field.fill = some mode) (constant : mode ≠ .random) :
    field.requests = [] := by
  simp [requests, fill, constant]

/-- The requests of a random fill: one for a bit run, one for each byte or word. -/
theorem requests_of_random (fill : field.fill = some .random) :
    field.requests =
      if field.kind = .bit then [field.count] else List.replicate field.count field.width := by
  rw [requests, if_pos fill, width]
  cases field.kind <;> simp

/-- A field that is filled is no string. -/
theorem Valid.ne_string_of_fill (valid : field.Valid) {mode : Fill}
    (filled : field.fill = some mode) : field.kind ≠ .string := by
  intro string
  rw [(valid.string_given string).1] at filled
  contradiction

theorem takesValue_iff : field.takesValue = true ↔ field.fill = none := Option.isNone_iff_eq_none

theorem takesValue_of_fill {mode : Fill} (filled : field.fill = some mode) :
    field.takesValue = false := by
  rw [takesValue, filled]
  rfl

theorem requests_of_given (given : field.fill = none) : field.requests = [] := by
  simp [requests, given]

/-- `fillImage` depends on as many numbers as the field requests. -/
theorem fillImage_append {mode : Fill} {numbers : List Nat}
    (enough : numbers.length = field.requests.length) (others : List Nat) :
    field.fillImage mode (numbers ++ others) = field.fillImage mode numbers := by
  cases mode with
  | zeros | ones => rfl
  | random => rw [fillImage, zipWith_requests_append _ enough, fillImage]

private theorem length_flatten_ofNat {count width : Nat} {numbers : List Nat}
    (enough : count ≤ numbers.length) :
    (List.zipWith Bits.ofNat (List.replicate count width) numbers).flatten.length =
      width * count := by
  induction count generalizing numbers with
  | zero => rfl
  | succ count ih =>
      cases numbers with
      | nil => contradiction
      | cons number numbers =>
          have others := ih (Nat.le_of_succ_le_succ enough)
          rw [List.replicate_succ, List.zipWith_cons_cons, List.flatten_cons, List.length_append,
            others, Bits.length_ofNat, Nat.mul_succ, Nat.add_comm]

/-- `fillImage` has the length of the field. -/
theorem length_fillImage {mode : Fill} (filled : field.fill = some mode) {numbers : List Nat}
    (enough : field.requests.length ≤ numbers.length) :
    (field.fillImage mode numbers).length = field.bitSize := by
  cases mode with
  | zeros | ones => exact List.length_replicate
  | random =>
      have requests := requests_of_random filled
      rw [fillImage, bitSize]
      by_cases run : field.kind = .bit
      · rw [if_pos run] at requests
        rw [requests] at enough ⊢
        rw [width_of_bit run, Nat.one_mul]
        exact (@length_flatten_ofNat 1 field.count numbers enough).trans (Nat.mul_one _)
      · rw [if_neg run] at requests
        rw [requests, List.length_replicate] at enough
        rw [requests, length_flatten_ofNat enough]

end Field

namespace Codec

variable {source : RandomSource}

/-- `appendAll` adds the words of integers that fit. -/
theorem appendAll_eq (order : Order) {width : Nat} (width_pos : 0 < width)
    (whole : width % 8 = 0) {values : List Nat} (small : ∀ value ∈ values, value < 2 ^ width)
    (emission : Emission) :
    appendAll order width values emission =
      pure (emission.extend (values.flatMap (Bits.ofWord order width)) []) := by
  induction values generalizing emission with
  | nil => simp only [List.flatMap_nil, Emission.extend_nil]; rfl
  | cons value values ih =>
      have others : ∀ other ∈ values, other < 2 ^ width := fun other member =>
        small other (List.mem_cons_of_mem _ member)
      rw [appendAll, emission.appendUnsigned_eq order width_pos (small value List.mem_cons_self),
        pure_bind, ih others, Emission.extend_extend, Bits.arrange_ofNat order whole,
        List.flatMap_cons]
      rfl

/-- `fillRepeatedly` with a constant fill adds the same bit throughout. -/
theorem fillRepeatedly_constant {mode : Fill} {width : Nat} {bit : Bool}
    (once : ∀ emission, fill source mode width emission =
      pure (emission.extend (List.replicate width bit) []))
    (count : Nat) (emission : Emission) :
    fillRepeatedly source mode width count emission =
      pure (emission.extend (List.replicate (width * count) bit) []) := by
  induction count generalizing emission with
  | zero => simp only [Nat.mul_zero, List.replicate_zero, Emission.extend_nil]; rfl
  | succ count ih =>
      rw [fillRepeatedly, once, pure_bind, ih, Emission.extend_extend,
        List.replicate_append_replicate, Nat.mul_succ, Nat.add_comm]
      rfl

/-- `fillRepeatedly` with a random fill adds the answers of the source in turn. -/
theorem fillRepeatedly_random {width count : Nat} {emission : Emission} {numbers : List Nat}
    (answered : source.answers emission.asked (List.replicate count width) = .ok numbers)
    (fits : ∀ entry ∈ List.zipWith Entry.mk (List.replicate count width) numbers, entry.Fits) :
    fillRepeatedly source .random width count emission =
      ⟨(List.replicate count width).map .drew,
        .ok (emission.extend
          (List.zipWith Bits.ofNat (List.replicate count width) numbers).flatten
          (List.replicate count width))⟩ := by
  induction count generalizing emission numbers with
  | zero =>
      obtain rfl : [] = numbers := by simpa [RandomSource.answers] using answered
      simp only [List.replicate_zero, List.zipWith_nil_left, List.flatten_nil, Emission.extend_nil]
      rfl
  | succ count ih =>
      rw [List.replicate_succ] at answered fits ⊢
      obtain ⟨number, others, head, tail, rfl⟩ := RandomSource.answers_cons_eq_ok_iff.mp answered
      obtain ⟨first_fits, others_fit⟩ := List.forall_mem_cons.mp fits
      have first := Emission.appendRandom_eq head first_fits
      have rest := @ih (emission.extend (Bits.ofNat width number) [width]) others
        (by simpa [Emission.extend] using tail) others_fit
      rw [fillRepeatedly, fill, first, Traced.ok_bind, rest, Emission.extend_extend]
      rfl

/-- `encodeFill` with a constant fill adds its image and requests nothing. -/
private theorem encodeFill_constant {field : Field} (valid : field.Valid) {mode : Fill}
    (filled : field.fill = some mode) {bit : Bool}
    (once : ∀ width emission, fill source mode width emission =
      pure (emission.extend (List.replicate width bit) []))
    (emission : Emission) :
    encodeFill source field mode emission =
      pure (emission.extend (List.replicate field.bitSize bit) []) := by
  rw [encodeFill]
  by_cases run : field.kind = .bit
  · rw [run]
    simp only [ofKind, once, Field.bitSize, Field.width_of_bit run, Nat.one_mul]
  · rw [Field.ofKind_of_wide run (valid.ne_string_of_fill filled)]
    simp only [fillRepeatedly_constant (once field.width), Field.bitSize]

/-- `encodeFill` adds the image of the fill and makes the requests of the field. -/
theorem encodeFill_eq {field : Field} (valid : field.Valid) {mode : Fill}
    (filled : field.fill = some mode) {emission : Emission} {numbers : List Nat}
    (answered : source.answers emission.asked field.requests = .ok numbers)
    (fits : ∀ entry ∈ field.drawn numbers, entry.Fits) :
    encodeFill source field mode emission =
      ⟨field.requests.map .drew,
        .ok (emission.extend (field.fillImage mode numbers) field.requests)⟩ := by
  cases mode with
  | zeros =>
      have once (width : Nat) (emission : Emission) : fill source .zeros width emission =
          pure (emission.extend (List.replicate width false) []) := by
        rw [fill, Emission.append_eq_extend]
        rfl
      rw [encodeFill_constant valid filled once, Field.requests_of_fill filled (by decide)]
      rfl
  | ones =>
      have once (width : Nat) (emission : Emission) : fill source .ones width emission =
          pure (emission.extend (List.replicate width true) []) := by
        rw [fill, Emission.append_eq_extend]
        rfl
      rw [encodeFill_constant valid filled once, Field.requests_of_fill filled (by decide)]
      rfl
  | random =>
      have requests := Field.requests_of_random filled
      rw [Field.drawn] at fits
      rw [Field.fillImage, encodeFill]
      by_cases run : field.kind = .bit
      · rw [if_pos run] at requests
        rw [requests] at answered fits ⊢
        obtain ⟨number, others, head, tail, rfl⟩ :=
          RandomSource.answers_cons_eq_ok_iff.mp answered
        rw [run]
        simp only [ofKind, fill, Emission.appendRandom_eq head (List.forall_mem_cons.mp fits).1]
        simp
      · rw [if_neg run] at requests
        rw [requests] at answered fits ⊢
        rw [Field.ofKind_of_wide run (valid.ne_string_of_fill filled)]
        exact fillRepeatedly_random answered fits

/-- `encodeBits` adds the image of the payload. -/
theorem encodeBits_eq {field : Field} (valid : field.Valid) (run : field.kind = .bit)
    {payload : Payload} (carried : field.Carries payload) (emission : Emission) :
    encodeBits field payload emission = pure (emission.extend (field.image payload) []) := by
  cases carried with
  | string kind =>
      rw [run] at kind
      contradiction
  | @array values kind shape length small =>
      rw [Field.width_of_bit run] at small
      have flags : values.map (· != 0) = values.map (· == 1) := by
        refine List.map_congr_left fun value member => ?_
        have binary : value = 0 ∨ value = 1 := by
          have := small value member
          omega
        rcases binary with rfl | rfl <;> rfl
      rw [Field.image, if_pos run, encodeBits, flags, Emission.append_eq_extend]
      rfl
  | scalar kind shape small justified =>
      rw [Field.image, if_pos run, Field.runImage, encodeBits]
      cases order : field.order with
      | native =>
          have low := Field.lt_count_of_ne_little run (by simp [order]) small
          simp only [emission.appendUnsigned_eq .big valid.count_pos low, Bits.arrange_big]
      | big =>
          have low := Field.lt_count_of_ne_little run (by simp [order]) small
          simp only [Bits.ofUnsigned?_natCast .big valid.count_pos low, Bits.arrange_big,
            Emission.append_eq_extend]
          rfl
      | little =>
          have high := Field.div_justification_lt run small
          simp only [emission.appendUnsigned_eq .big valid.count_pos high, Bits.arrange_big]

/-- `encodeIntegers` adds the image of the payload. -/
theorem encodeIntegers_eq {field : Field} (wide : field.kind ≠ .bit)
    (integer : field.kind ≠ .string) {payload : Payload} (carried : field.Carries payload)
    (emission : Emission) :
    encodeIntegers field payload emission = pure (emission.extend (field.image payload) []) := by
  have whole := Field.width_mod_of_ne_bit wide
  cases carried with
  | string kind => exact absurd kind integer
  | array kind shape length small =>
      rw [Field.image, if_neg wide, encodeIntegers,
        appendAll_eq field.order field.width_pos whole small]
  | scalar kind shape small justified =>
      rw [Field.scalarWidth_of_ne_bit wide] at small
      rw [Field.image, if_neg wide, encodeIntegers,
        emission.appendUnsigned_eq field.order field.width_pos small,
        Bits.arrange_ofNat field.order whole]

/-- `encodeString` adds the bytes, cut or completed, with the events of `paddingEvents`. -/
theorem encodeString_eq (field : Field) (data : Bytes) (emission : Emission) :
    encodeString field (.bytes data) emission =
      ⟨field.paddingEvents (.bytes data),
        .ok (emission.extend (field.image (.bytes data)) [])⟩ := by
  have missing : field.count - (data.take field.count).length = field.count - data.length := by
    rw [List.length_take]
    omega
  have added : emission.appendBytes (data.take field.count
        ++ List.replicate (field.count - (data.take field.count).length) 0) =
      emission.extend (Bits.ofBytes (Bytes.fit field.count data)) [] := by
    rw [missing, Emission.appendBytes_eq_extend, Bytes.fit]
  rw [Field.paddingEvents, Field.image, ← added, encodeString]
  split <;> rfl

/-- `encodePayload` adds the image of the payload, with the events of `paddingEvents`. -/
theorem encodePayload_eq {field : Field} (valid : field.Valid) {payload : Payload}
    (carried : field.Carries payload) (emission : Emission) :
    encodePayload field payload emission =
      ⟨field.paddingEvents payload, .ok (emission.extend (field.image payload) [])⟩ := by
  rw [encodePayload]
  by_cases string : field.kind = .string
  · rw [string]
    cases carried with
    | string => exact encodeString_eq field _ emission
    | array kind | scalar kind => exact absurd string kind
  · have silent : field.paddingEvents payload = [] := by
      cases carried with
      | string kind => exact absurd kind string
      | array | scalar => rfl
    rw [silent]
    by_cases run : field.kind = .bit
    · rw [run]
      exact encodeBits_eq valid run carried emission
    · rw [Field.ofKind_of_wide run string]
      exact encodeIntegers_eq run string carried emission

end Codec

end BitRecord
