/-
# Directives

A record format is a list of directives. A field moves bits between the record
and a value, or fills them in without one; a literal stands for itself. Only
some combinations of what can be written about a field make sense, and
`Field.fault?` names the first rule that a field breaks.
-/

import BitRecord.Bits.Unsigned

namespace BitRecord

/-- What a field is made of. -/
inductive Kind where
  | bit
  | byte
  | word16
  | word32
  | word64
  | string
  deriving DecidableEq, Repr, Inhabited

/-- The bits of a field that takes no value: all zero, all one, or random. -/
inductive Fill where
  | zeros
  | ones
  | random
  deriving DecidableEq, Repr

/-- Whether a field takes one value or one array of values. -/
inductive Shape where
  | scalar
  | array
  deriving DecidableEq, Repr, Inhabited

/-- A field of a record. -/
structure Field where
  /-- The type of each element. -/
  kind : Kind
  /-- How many elements there are. -/
  count : Nat
  /-- The order of bytes or bits. -/
  order : Order
  /-- Whether the field starts on a byte boundary. -/
  aligned : Bool
  /-- The fill that stands in for a value. -/
  fill : Option Fill
  /-- Whether the value is an array. -/
  shape : Shape
  deriving DecidableEq, Repr

/-- One step of a record: a field or a run of literal bytes. -/
inductive Directive where
  | field (field : Field)
  | literal (data : Bytes)
  deriving DecidableEq, Repr

/-- A directive and where it was written: the position of its first character. -/
structure Item where
  position : Nat
  directive : Directive
  deriving DecidableEq, Repr

namespace Kind

/-- The number of bits of one element. -/
def width : Kind → Nat
  | bit => 1
  | byte => 8
  | word16 => 16
  | word32 => 32
  | word64 => 64
  | string => 8

/-- The kinds whose elements can stand side by side in a single value. -/
def joinsElements : Kind → Bool
  | bit | string => true
  | _ => false

theorem width_pos (kind : Kind) : 0 < kind.width := by
  cases kind <;> decide

end Kind

namespace Field

/-- The number of bits of one element. -/
def width (field : Field) : Nat := field.kind.width

/-- The number of bits of the whole field. -/
def bitSize (field : Field) : Nat := field.width * field.count

/-- Whether the field takes a value: it has no fill. -/
def takesValue (field : Field) : Bool := field.fill.isNone

/-- The number of bits that a scalar value may use. A little-endian bit run is taken from the
top of the whole bytes around it, so its value may use all of them. -/
def scalarWidth (field : Field) : Nat :=
  match field.kind with
  | .bit => if field.order = .little then (field.count + 7) / 8 * 8 else field.count
  | kind => kind.width

/-- The number of low bits of a scalar value that lie below the field. -/
def justification (field : Field) : Nat := field.scalarWidth - field.count

end Field

/-- The rules that a well formed field can break. -/
inductive FieldFault where
  | noElements
  | filledString
  | stringArray
  | filledArray
  | severalScalars
  deriving DecidableEq, Repr

namespace Field

/-- The first rule that a field breaks. -/
def fault? (field : Field) : Option FieldFault :=
  if field.count = 0 then some .noElements
  else if field.kind = .string ∧ field.fill ≠ none then some .filledString
  else if field.kind = .string ∧ field.shape = .array then some .stringArray
  else if field.shape = .array ∧ field.fill ≠ none then some .filledArray
  else if 1 < field.count ∧ field.kind.joinsElements = false ∧
      field.shape = .scalar ∧ field.fill = none then some .severalScalars
  else none

/-- The rules of a field: at least one element, no fill and no array of a string, no array of a
filled field, and an array or a fill for several bytes or words. -/
structure Valid (field : Field) : Prop where
  count_pos : 0 < field.count
  string_given : field.kind = .string → field.fill = none ∧ field.shape = .scalar
  array_given : field.shape = .array → field.fill = none
  several : 1 < field.count → field.kind.joinsElements = false →
    field.shape = .array ∨ field.fill ≠ none

/-- `fault?` gives nothing exactly when the field is valid. -/
theorem fault?_eq_none_iff (field : Field) : field.fault? = none ↔ field.Valid := by
  have shapes : field.shape = .scalar ∨ field.shape = .array := by
    cases field.shape <;> simp
  unfold fault?
  constructor
  · intro no_fault
    constructor <;> grind
  · rintro ⟨count_pos, string_given, array_given, several⟩
    grind

end Field

namespace Directive

/-- The number of bits, padding in front left out. -/
def bitSize : Directive → Nat
  | field f => f.bitSize
  | literal data => 8 * data.length

/-- Whether the directive takes a value. -/
def takesValue : Directive → Bool
  | field f => f.takesValue
  | literal _ => false

/-- Whether the walk over a record aligns before the directive: a field with the alignment flag. -/
def isFlagged : Directive → Bool
  | field f => f.aligned
  | literal _ => false

/-- Whether the bits of the directive start on a byte boundary. -/
def isAligned : Directive → Bool
  | field f => f.aligned
  | literal _ => true

end Directive

end BitRecord
