/-
# Binding values to fields

Values are given in one flat sequence, one for each field that takes one. All of
them are checked before anything is written: their number first, then each
value, in the order of the fields, by the rules of its field. An integer is
accepted in the signed and the unsigned range of its width, and a negative one
becomes its two's complement.
-/

import BitRecord.Bits.TwosComplement
import BitRecord.Format.Layout

namespace BitRecord

/-- The unsigned form of an integer in `width` bits, or `outOfRange`, whose message quotes the
integer. -/
def Value.toUnsigned (value : Value) (width : Int) : Except Cause Nat :=
  match value with
  | .integer number =>
      if width ≤ 0 then .error .noWidth
      else if fitsWidth width.toNat number then .ok (twosComplement width.toNat number)
      else .error ((Cause.outOfRange number width.toNat).ifWritten (DigitLimit.canWrite number))
  | value => .error (.notInteger value.valueClass)

/-- The unsigned forms of the integers of a range, `count` of them from `first` on, up to the first
one that does not fit. -/
def unsignedRange (width : Int) (step : Int) :
    (count : Nat) → (first : Int) → Except Cause (List Nat)
  | 0, _ => .ok []
  | count + 1, first => do
      let number ← (Value.integer first).toUnsigned width
      let numbers ← unsignedRange width step count (first + step)
      return number :: numbers

/-- The unsigned forms of the items of a value. A range is not listed for it. -/
def Value.toUnsignedItems (value : Value) (width : Int) : Except Cause (List Nat) :=
  match value with
  | .range start stop step => unsignedRange width step (rangeLength start stop step) start
  | value => (value.items?.getD []).mapM fun item : Value => item.toUnsigned width

private theorem unsignedRange_eq (width step : Int) (count : Nat) (first : Int) :
    unsignedRange width step count first =
      ((List.range count).map fun index : Nat => Value.integer (first + step * index)).mapM
        fun item : Value => item.toUnsigned width := by
  induction count generalizing first with
  | zero => rfl
  | succ count ih =>
      simp only [unsignedRange, ih, List.range_succ_eq_map, List.map_cons, List.map_map,
        List.mapM_cons]
      have shift : (fun index : Nat => Value.integer (first + step + step * index)) =
          (fun index : Nat => Value.integer (first + step * index)) ∘ Nat.succ := by
        funext index
        simp only [Function.comp, Nat.succ_eq_add_one, Int.natCast_add, Int.natCast_one,
          Int.mul_add, Int.mul_one, Value.integer.injEq]
        omega
      rw [shift]
      simp

/-- The unsigned forms of the items are those of their list, one by one. -/
theorem Value.toUnsignedItems_eq (value : Value) (width : Int) :
    value.toUnsignedItems width =
      (value.items?.getD []).mapM fun item : Value => item.toUnsigned width := by
  cases value with
  | range start stop step =>
      simp [toUnsignedItems, items?, rangeItems, unsignedRange_eq, Function.comp_def]
  | _ => rfl

namespace Field

/-- The bytes for a string field. -/
def bindString (value : Value) : Except Cause Payload :=
  match value.asBytes? with
  | some bytes => .ok (.bytes bytes)
  | none => .error (.notBytes value.valueClass)

/-- The integers for an array field. The length is checked before any element. -/
def bindArray (field : Field) (value : Value) : Except Cause Payload :=
  match value.sequenceLength? with
  | none => .error (.notSequence value.valueClass)
  | some length =>
      if !value.hasItemsBelow Value.countBound then .error .uncountable
      else if length = field.count then (value.toUnsignedItems field.width).map .integers
      else .error (.arrayLength length field.count)

/-- The integer for a scalar field. A justified value has nothing below its field. -/
def bindScalar (field : Field) (value : Value) : Except Cause Payload := do
  let number ← value.toUnsigned field.scalarWidth
  if field.kind = .bit ∧ field.order = .little ∧ number % 2 ^ field.justification ≠ 0 then
    .error (.strayBits number field.count)
  else .ok (.integer number)

/-- The payload that a value is for a field. -/
def bind (field : Field) (value : Value) : Except Cause Payload :=
  match field.kind, field.shape with
  | .string, _ => bindString value
  | _, .array => field.bindArray value
  | _, .scalar => field.bindScalar value

end Field

/-- Binds the next value to each field that takes one, in the order of the items. -/
def bindItems : List Item → List Value → Traced (List Argument)
  | [], _ => pure []
  | ⟨position, .field field⟩ :: items, values =>
      if field.takesValue then
        match values with
        | [] => .fail (.placed .missingArgument position)
        | value :: values =>
            match field.bind value with
            | .error cause => .fail ((Failure.unplaced cause).orPlacedAt position)
            | .ok payload => do
                let argument : Argument := ⟨field.kind, payload⟩
                Traced.note (.bound argument field)
                let arguments ← bindItems items values
                return argument :: arguments
      else bindItems items values
  | ⟨_, .literal _⟩ :: items, values => bindItems items values

namespace Format

/-- The arguments that values are for a format, one for each field that takes a value. -/
def bind (format : Format) (values : Value) : Traced (List Argument) :=
  if values.isSingle then .fail (.unplaced (.singleValue values.valueClass))
  else
    match values.itemCount? with
    | none => .fail (.unplaced (.notIterable values.valueClass))
    | some count =>
        if !values.hasItemsBelow Value.countBound then .fail (.unplaced .uncountable)
        else if !values.hasItemsBelow Value.listBound then .fail (.unplaced .unlistable)
        else if count = format.arity then bindItems format.items (values.items?.getD [])
        else .fail (.unplaced (.valueCount format.arity count))

end Format

end BitRecord
