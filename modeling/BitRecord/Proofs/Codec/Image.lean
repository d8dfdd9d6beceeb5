/-
# The bits of a payload

Every field has one way to write a payload in its bits and one way to read it
back. Both are stated here without a cursor: `image` gives the bits that a
payload takes, `content` the payload that bits hold. They are inverse to each
other on the payloads that a field carries (`content_image`) and on all strings
of its length (`image_content`), so no two payloads share their bits and no bits
are left without a payload.
-/

import BitRecord.Codec.Basic
import BitRecord.Proofs.Bits.Words

namespace BitRecord

/-- The bytes cut to a length, or completed with zero bytes up to it. -/
def Bytes.fit (count : Nat) (data : Bytes) : Bytes :=
  data.take count ++ List.replicate (count - data.length) 0

/-- A payload fitted to a field of `count` elements: a string is cut or completed. -/
def Payload.fitted (count : Nat) : Payload → Payload
  | .bytes data => .bytes (Bytes.fit count data)
  | payload => payload

namespace Field

/-- The bits of an integer in a bit run: in native order its low bits, in big-endian order these
reversed, in little-endian order the top bits of the whole bytes. -/
def runImage (field : Field) (value : Nat) : Bits :=
  match field.order with
  | .native => Bits.ofNat field.count value
  | .big => (Bits.ofNat field.count value).reverse
  | .little => Bits.ofNat field.count (value / 2 ^ field.justification)

/-- The integer that a bit run holds. -/
def runContent (field : Field) (bits : Bits) : Nat :=
  match field.order with
  | .native => bits.toNat
  | .big => Bits.toNat bits.reverse
  | .little => bits.toNat * 2 ^ field.justification

/-- The bits that a payload takes in a field. -/
def image (field : Field) : Payload → Bits
  | .bytes data => Bits.ofBytes (Bytes.fit field.count data)
  | .integers values =>
      if field.kind = .bit then values.map (· == 1)
      else values.flatMap (Bits.ofWord field.order field.width)
  | .integer value =>
      if field.kind = .bit then field.runImage value
      else Bits.ofWord field.order field.width value

/-- The payload that the bits of a field hold. -/
def content (field : Field) (bits : Bits) : Payload :=
  if field.kind = .string then .bytes bits.toBytes
  else
    match field.shape with
    | .array =>
        if field.kind = .bit then .integers (bits.map Bool.toNat)
        else .integers (Bits.words field.order field.width field.count bits)
    | .scalar =>
        if field.kind = .bit then .integer (field.runContent bits)
        else .integer (bits.arrange field.order).toNat

/-- The payloads that can be written in a field: any bytes for a string, as many integers as an
array has elements, each in the width of one, and for a scalar one integer in the width of its
value that has nothing below its field. -/
inductive Carries (field : Field) : Payload → Prop
  | string {data : Bytes} (kind : field.kind = .string) : Carries field (.bytes data)
  | array {values : List Nat} (kind : field.kind ≠ .string) (shape : field.shape = .array)
      (length : values.length = field.count) (small : ∀ value ∈ values, value < 2 ^ field.width) :
      Carries field (.integers values)
  | scalar {value : Nat} (kind : field.kind ≠ .string) (shape : field.shape = .scalar)
      (small : value < 2 ^ field.scalarWidth)
      (justified : field.kind = .bit → field.order = .little →
        value % 2 ^ field.justification = 0) :
      Carries field (.integer value)

variable {field : Field}

theorem width_pos (field : Field) : 0 < field.width := field.kind.width_pos

theorem width_of_bit (bit : field.kind = .bit) : field.width = 1 := by
  rw [width, bit]
  rfl

theorem width_of_string (string : field.kind = .string) : field.width = 8 := by
  rw [width, string]
  rfl

/-- The width of a field that is no bit run is a whole number of bytes. -/
theorem width_mod_of_ne_bit (wide : field.kind ≠ .bit) : field.width % 8 = 0 := by
  unfold width
  cases kind : field.kind <;> simp_all [Kind.width]

theorem ofKind_of_wide (wide : field.kind ≠ .bit) (integer : field.kind ≠ .string) :
    Codec.ofKind field.kind = .integer := by
  cases kind : field.kind <;> simp_all [Codec.ofKind]

theorem scalarWidth_of_ne_bit (wide : field.kind ≠ .bit) : field.scalarWidth = field.width := by
  unfold scalarWidth width
  cases kind : field.kind <;> simp_all

/-- The scalar width of a bit run is its count, rounded up to whole bytes when it is
little-endian. -/
theorem scalarWidth_of_bit (bit : field.kind = .bit) :
    field.scalarWidth =
      if field.order = .little then (field.count + 7) / 8 * 8 else field.count := by
  simp only [scalarWidth, bit]

/-- The count of a bit run and its justification add up to the scalar width. -/
theorem count_add_justification (bit : field.kind = .bit) :
    field.count + field.justification = field.scalarWidth := by
  have width := scalarWidth_of_bit bit
  unfold justification
  split at width <;> omega

/-- A value shifted right by the justification is below two to the count. -/
theorem div_justification_lt (bit : field.kind = .bit) {value : Nat}
    (small : value < 2 ^ field.scalarWidth) :
    value / 2 ^ field.justification < 2 ^ field.count := by
  rw [Nat.div_lt_iff_lt_mul (Nat.two_pow_pos _), ← Nat.pow_add, count_add_justification bit]
  exact small

/-- The value of a bit run that is not little-endian is below two to its count. -/
theorem lt_count_of_ne_little (bit : field.kind = .bit) (order : field.order ≠ .little)
    {value : Nat} (small : value < 2 ^ field.scalarWidth) : value < 2 ^ field.count := by
  rwa [scalarWidth_of_bit bit, if_neg order] at small

/-- A single value for bytes or words is a single byte or word. -/
theorem Valid.count_eq_one (valid : field.Valid) (given : field.takesValue = true)
    (wide : field.kind ≠ .bit) (integer : field.kind ≠ .string) (scalar : field.shape = .scalar) :
    field.count = 1 := by
  have unjoined : field.kind.joinsElements = false := by
    cases kind : field.kind <;> simp_all [Kind.joinsElements]
  have unfilled : field.fill = none := Option.isNone_iff_eq_none.mp given
  have positive := valid.count_pos
  rcases Nat.lt_or_ge 1 field.count with several | single
  · rcases valid.several several unjoined with array | filled
    · rw [scalar] at array
      contradiction
    · exact absurd unfilled filled
  · omega

@[simp]
theorem length_runImage (field : Field) (value : Nat) :
    (field.runImage value).length = field.count := by
  unfold runImage
  split <;> simp

end Field

@[simp]
theorem Bytes.length_fit (count : Nat) (data : Bytes) : (fit count data).length = count := by
  simp [fit]
  omega

/-- `Bytes.fit` leaves bytes of the right length as they are. -/
theorem Bytes.fit_of_length {count : Nat} {data : Bytes} (length : data.length = count) :
    fit count data = data := by
  simp [fit, length, List.take_of_length_le]

namespace Field

variable {field : Field}

/-- The image of a payload is as long as its field. -/
theorem length_image (valid : field.Valid) (given : field.takesValue = true) {payload : Payload}
    (carried : field.Carries payload) : (field.image payload).length = field.bitSize := by
  cases carried with
  | string kind => simp [image, bitSize, width_of_string kind]
  | array kind shape length small =>
      by_cases bit : field.kind = .bit
      · simp [image, bitSize, bit, width_of_bit bit, length]
      · rw [image, if_neg bit, Bits.length_flatMap_ofWord _ (width_mod_of_ne_bit bit), length,
          bitSize]
  | scalar kind shape small justified =>
      by_cases bit : field.kind = .bit
      · simp [image, bitSize, bit, width_of_bit bit]
      · rw [image, if_neg bit, Bits.length_ofWord _ (width_mod_of_ne_bit bit), bitSize,
          valid.count_eq_one given bit kind shape, Nat.mul_one]

/-- `runContent` is inverse to `runImage` on integers with no bits below the field. -/
theorem runContent_runImage (bit : field.kind = .bit) {value : Nat}
    (small : value < 2 ^ field.scalarWidth)
    (justified : field.order = .little → value % 2 ^ field.justification = 0) :
    field.runContent (field.runImage value) = value := by
  unfold runContent runImage
  cases order : field.order with
  | native =>
      have low := lt_count_of_ne_little bit (by simp [order]) small
      simp only [Bits.toNat_ofNat, Nat.mod_eq_of_lt low]
  | big =>
      have low := lt_count_of_ne_little bit (by simp [order]) small
      simp only [List.reverse_reverse, Bits.toNat_ofNat, Nat.mod_eq_of_lt low]
  | little =>
      have high := div_justification_lt bit small
      simp only [Bits.toNat_ofNat, Nat.mod_eq_of_lt high]
      exact Nat.div_mul_cancel (Nat.dvd_of_mod_eq_zero (justified order))

/-- `runImage` is inverse to `runContent`. -/
theorem runImage_runContent {bits : Bits} (length : bits.length = field.count) :
    field.runImage (field.runContent bits) = bits := by
  unfold runContent runImage
  cases field.order with
  | native => simp only [← length, Bits.ofNat_toNat]
  | big =>
      have back := Bits.ofNat_toNat bits.reverse
      rw [List.length_reverse, length] at back
      simp only [back, List.reverse_reverse]
  | little =>
      simp only [Nat.mul_div_cancel _ (Nat.two_pow_pos _), ← length, Bits.ofNat_toNat]

/-- `runContent` is below two to the scalar width. -/
theorem runContent_lt (bit : field.kind = .bit) {bits : Bits} (length : bits.length = field.count) :
    field.runContent bits < 2 ^ field.scalarWidth := by
  have width := scalarWidth_of_bit bit
  have bound := Bits.toNat_lt bits
  have bound_reverse := Bits.toNat_lt bits.reverse
  rw [List.length_reverse] at bound_reverse
  rw [length] at bound bound_reverse
  unfold runContent
  cases order : field.order with
  | native =>
      rw [if_neg (by simp [order])] at width
      simpa only [width] using bound
  | big =>
      rw [if_neg (by simp [order])] at width
      simpa only [width] using bound_reverse
  | little =>
      rw [← count_add_justification bit, Nat.pow_add]
      exact Nat.mul_lt_mul_of_pos_right bound (Nat.two_pow_pos _)

/-- `content` is inverse to `image`, up to cutting or completing a string. -/
theorem content_image {payload : Payload} (carried : field.Carries payload) :
    field.content (field.image payload) = payload.fitted field.count := by
  cases carried with
  | string kind =>
      rw [content, if_pos kind, image, Bits.toBytes_ofBytes, Payload.fitted]
  | array kind shape length small =>
      by_cases bit : field.kind = .bit
      · rw [width_of_bit bit] at small
        simp only [content, if_neg kind, shape, image, if_pos bit, List.map_map, Payload.fitted]
        congr 1
        refine List.map_congr_left ?_ |>.trans (List.map_id _)
        intro value member
        have binary : value = 0 ∨ value = 1 := by
          have := small value member
          omega
        rcases binary with rfl | rfl <;> rfl
      · have read := Bits.words_flatMap_ofWord field.order (width_mod_of_ne_bit bit) small
        rw [length] at read
        simp only [content, if_neg kind, shape, image, if_neg bit, read, Payload.fitted]
  | scalar kind shape small justified =>
      by_cases bit : field.kind = .bit
      · simp only [content, if_neg kind, shape, image, if_pos bit, Payload.fitted,
          runContent_runImage bit small (justified bit)]
      · rw [scalarWidth_of_ne_bit bit] at small
        simp only [content, if_neg kind, shape, image, if_neg bit, Payload.fitted,
          Bits.toNat_arrange_ofWord field.order (width_mod_of_ne_bit bit) small]

variable {bits : Bits}

/-- A field carries its `content`. -/
theorem carries_content (valid : field.Valid) (given : field.takesValue = true)
    (length : bits.length = field.bitSize) : field.Carries (field.content bits) := by
  unfold content
  by_cases string : field.kind = .string
  · rw [if_pos string]
    exact .string string
  · rw [if_neg string]
    cases shape : field.shape with
    | array =>
        dsimp only
        by_cases bit : field.kind = .bit
        · rw [if_pos bit]
          rw [bitSize, width_of_bit bit, Nat.one_mul] at length
          refine .array string shape (by rw [List.length_map, length]) ?_
          intro value member
          obtain ⟨flag, _, rfl⟩ := List.mem_map.mp member
          rw [width_of_bit bit]
          cases flag <;> decide
        · rw [if_neg bit]
          exact .array string shape (Bits.length_words _ _ _ _)
            fun value member => Bits.lt_of_mem_words member
    | scalar =>
        dsimp only
        by_cases bit : field.kind = .bit
        · rw [if_pos bit]
          rw [bitSize, width_of_bit bit, Nat.one_mul] at length
          refine .scalar string shape (runContent_lt bit length) ?_
          intro _ little
          simp only [runContent, little, Nat.mul_mod_left]
        · rw [if_neg bit]
          rw [bitSize, valid.count_eq_one given bit string shape, Nat.mul_one] at length
          refine .scalar string shape ?_ fun wrong => absurd wrong bit
          rw [scalarWidth_of_ne_bit bit, ← length, ← Bits.length_arrange field.order bits]
          exact Bits.toNat_lt _

/-- `image` is inverse to `content`. -/
theorem image_content (valid : field.Valid) (given : field.takesValue = true)
    (length : bits.length = field.bitSize) : field.image (field.content bits) = bits := by
  unfold content
  by_cases string : field.kind = .string
  · rw [bitSize, width_of_string string] at length
    have count : bits.toBytes.length = field.count := by
      rw [Bits.length_toBytes]
      omega
    rw [if_pos string, image, Bytes.fit_of_length count, Bits.ofBytes_toBytes,
      Bits.completed_of_whole (by omega)]
  · rw [if_neg string]
    cases shape : field.shape with
    | array =>
        by_cases bit : field.kind = .bit
        · simp only [image, if_pos bit, List.map_map]
          refine (List.map_congr_left ?_).trans (List.map_id _)
          intro flag _
          cases flag <;> rfl
        · simp only [image, if_neg bit]
          exact Bits.flatMap_ofWord_words _ (width_mod_of_ne_bit bit) length
    | scalar =>
        by_cases bit : field.kind = .bit
        · rw [bitSize, width_of_bit bit, Nat.one_mul] at length
          simp only [image, if_pos bit, runImage_runContent length]
        · rw [bitSize, valid.count_eq_one given bit string shape, Nat.mul_one] at length
          simp only [image, if_neg bit]
          rw [← length]
          exact Bits.ofWord_toNat_arrange _ bits (by rw [length]; exact width_mod_of_ne_bit bit)

end Field

end BitRecord
