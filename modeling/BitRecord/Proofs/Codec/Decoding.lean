/-
# What decoding reads

Decoding a directive takes exactly its bits off a reader that has them, and gives
the content of these bits. On a reader that has too few it fails with the cause of
`shortage`, which depends on the first element that is missing. The reader stands
on any bit, so nothing here depends on byte boundaries but the alignment itself.
-/

import BitRecord.Codec.Decode
import BitRecord.Format.Layout
import BitRecord.Proofs.Codec.Image
import BitRecord.Proofs.Cursor.Reader

namespace BitRecord

namespace Directive

/-- The payload that the bits of a directive give. -/
def content? (directive : Directive) (bits : Bits) : Option Payload :=
  match directive with
  | .field f => if f.takesValue then some (f.content bits) else none
  | .literal _ => none

/-- Whether bits are those of the directive, if it is a literal. -/
def Agrees (directive : Directive) (bits : Bits) : Prop :=
  match directive with
  | .field _ => True
  | .literal data => bits.toBytes = data

end Directive

/-- The number of bits of a field that are taken in one go: all bits of a run or a string, one
element of bytes or words. -/
def Field.stride (field : Field) : Nat :=
  if field.kind.joinsElements then field.bitSize else field.width

namespace Reader

variable {reader : Reader}

/-- The cause for which requests of `stride` bits each are refused when the bits run out. -/
def shortage (reader : Reader) (stride : Nat) : Cause :=
  (Cause.truncated stride (reader.position + reader.remaining / stride * stride)
    (reader.remaining % stride)).ifWritten (DigitLimit.canWrite stride)

theorem shortage_of_lt {stride : Nat} (missing : reader.remaining < stride) :
    reader.shortage stride = reader.truncation stride := by
  rw [shortage, truncation, Nat.div_eq_of_lt missing, Nat.mod_eq_of_lt missing, Nat.zero_mul,
    Nat.add_zero]

/-- `shortage` is the same behind a request that succeeds. -/
theorem shortage_move {stride : Nat} (stride_pos : 0 < stride)
    (enough : stride ≤ reader.remaining) :
    (reader.move stride).shortage stride = reader.shortage stride := by
  have position : reader.position + stride + (reader.remaining - stride) / stride * stride =
      reader.position + reader.remaining / stride * stride := by
    rw [Nat.div_eq_sub_div stride_pos enough, Nat.succ_mul]
    omega
  rw [shortage, shortage, remaining_moved, ← Nat.mod_eq_sub_mod enough]
  exact congrArg (fun place => (Cause.truncated stride place _).ifWritten _) position

end Reader

namespace Codec

variable {reader : Reader}

/-- `takeAll` takes words one by one when enough bits remain. -/
theorem takeAll_of_le (order : Order) {width : Nat} (width_pos : 0 < width) {count : Nat}
    (enough : width * count ≤ reader.remaining) :
    takeAll order width count reader =
      .ok (Bits.words order width count (reader.rest.take (width * count)),
        reader.move (width * count)) := by
  induction count generalizing reader with
  | zero => rfl
  | succ count ih =>
      rw [Nat.mul_succ] at enough
      have first := reader.takeUnsigned_of_le order width_pos (by omega)
      have others := @ih (reader.move width) (by rw [Reader.remaining_moved]; omega)
      have front : (reader.rest.take (width * (count + 1))).take width =
          reader.rest.take width := by
        rw [List.take_take, Nat.mul_succ, Nat.min_eq_left (by omega)]
      have back : (reader.rest.take (width * (count + 1))).drop width =
          (reader.rest.drop width).take (width * count) := by
        rw [List.drop_take, Nat.mul_succ, Nat.add_sub_cancel]
      rw [takeAll, first]
      simp only [bind, Except.bind, others, Reader.rest_moved, Reader.move_move, Bits.words, front,
        back]
      rw [Nat.mul_succ, Nat.add_comm]
      rfl

/-- `takeAll` fails with `shortage` when too few bits remain. -/
theorem takeAll_of_lt (order : Order) {width : Nat} (width_pos : 0 < width) {count : Nat}
    (missing : reader.remaining < width * count) :
    takeAll order width count reader = .error (reader.shortage width) := by
  induction count generalizing reader with
  | zero => omega
  | succ count ih =>
      rw [Nat.mul_succ] at missing
      rw [takeAll]
      rcases Nat.lt_or_ge reader.remaining width with short | enough
      · rw [Reader.takeUnsigned_of_lt order short, Reader.shortage_of_lt short]
        rfl
      · have later := @ih (reader.move width) (by rw [Reader.remaining_moved]; omega)
        rw [Reader.shortage_move width_pos enough] at later
        rw [Reader.takeUnsigned_of_le order width_pos enough]
        simp only [bind, Except.bind, later]

variable {field : Field}

private theorem isEmpty_eq_false_of_valid (valid : field.Valid) {bits : Bits}
    (length : bits.length = field.count) : bits.isEmpty = false := by
  rw [List.isEmpty_eq_false_iff_exists_mem]
  exact List.exists_mem_of_length_pos (by rw [length]; exact valid.count_pos)

/-- `decodeBits` gives the content of a bit run. -/
theorem decodeBits_eq (valid : field.Valid) (run : field.kind = .bit) {bits : Bits}
    (length : bits.length = field.count) : decodeBits field bits = .ok (field.content bits) := by
  have full := isEmpty_eq_false_of_valid valid length
  have full_reverse := isEmpty_eq_false_of_valid valid (bits.length_reverse.trans length)
  have integer : field.kind ≠ .string := by simp [run]
  rw [decodeBits, Field.content, if_neg integer]
  cases shape : field.shape with
  | array => simp [run]
  | scalar =>
      cases order : field.order <;>
        simp [run, Field.runContent, order, Bits.toUnsigned?, full, full_reverse]

/-- `decodeIntegers` gives the content of the words of a field. -/
theorem decodeIntegers_eq (valid : field.Valid) (given : field.takesValue = true)
    (wide : field.kind ≠ .bit) (integer : field.kind ≠ .string) {bits : Bits}
    (length : bits.length = field.bitSize) :
    decodeIntegers field (Bits.words field.order field.width field.count bits) =
      .ok (field.content bits) := by
  unfold decodeIntegers
  rw [Field.content, if_neg integer]
  cases shape : field.shape with
  | array => simp [wide]
  | scalar =>
      have single := valid.count_eq_one given wide integer shape
      rw [Field.bitSize, single, Nat.mul_one] at length
      rw [single, Bits.words, List.take_of_length_le (Nat.le_of_eq length)]
      simp [wide]

/-- `decodeField` takes the bits of the field and gives their content when enough remain. -/
theorem decodeField_of_le (valid : field.Valid) (enough : field.bitSize ≤ reader.remaining) :
    decodeField field reader =
      .ok ((Directive.field field).content? (reader.rest.take field.bitSize),
        reader.move field.bitSize) := by
  have length : (reader.rest.take field.bitSize).length = field.bitSize := by
    rw [List.length_take, Reader.length_rest, Nat.min_eq_left enough]
  rw [decodeField, Directive.content?]
  by_cases run : field.kind = .bit
  · have size : field.bitSize = field.count := by
      rw [Field.bitSize, Field.width_of_bit run, Nat.one_mul]
    rw [size] at enough length ⊢
    rw [run]
    simp only [ofKind, Reader.take_of_le enough, bind, Except.bind,
      decodeBits_eq valid run length]
    split <;> rfl
  · by_cases string : field.kind = .string
    · have size : field.bitSize = 8 * field.count := by
        rw [Field.bitSize, Field.width_of_string string]
      have given : field.takesValue = true := by
        rw [Field.takesValue, (valid.string_given string).1]
        rfl
      rw [size] at enough ⊢
      rw [string, if_pos given, Field.content, if_pos string]
      simp only [ofKind, Reader.takeBytes_of_le enough, bind, Except.bind]
      rfl
    · have taken := takeAll_of_le field.order field.width_pos enough
      rw [Field.ofKind_of_wide run string]
      simp only [taken, bind, Except.bind]
      by_cases given : field.takesValue = true
      · have decoded := decodeIntegers_eq valid given run string length
        rw [Field.bitSize] at decoded
        simp only [given, if_true, decoded]
        rfl
      · simp only [given]
        rfl

/-- `decodeField` fails with `shortage` when too few bits remain. -/
theorem decodeField_of_lt (missing : reader.remaining < field.bitSize) :
    decodeField field reader = .error (reader.shortage field.stride) := by
  rw [decodeField]
  by_cases run : field.kind = .bit
  · have stride : field.stride = field.count := by
      rw [Field.stride, run, if_pos (by rfl), Field.bitSize, Field.width_of_bit run, Nat.one_mul]
    rw [Field.bitSize, Field.width_of_bit run, Nat.one_mul] at missing
    rw [run, stride, Reader.shortage_of_lt missing]
    simp only [ofKind, Reader.take_of_lt missing, bind, Except.bind]
  · by_cases string : field.kind = .string
    · have stride : field.stride = 8 * field.count := by
        rw [Field.stride, string, if_pos (by rfl), Field.bitSize, Field.width_of_string string]
      rw [Field.bitSize, Field.width_of_string string] at missing
      rw [string, stride, Reader.shortage_of_lt missing]
      simp only [ofKind, Reader.takeBytes_of_lt missing, bind, Except.bind]
    · have stride : field.stride = field.width := by
        unfold Field.stride
        cases kind : field.kind <;> simp_all [Kind.joinsElements]
      rw [Field.ofKind_of_wide run string, stride]
      simp only [takeAll_of_lt field.order field.width_pos missing, bind, Except.bind]

end Codec

end BitRecord
