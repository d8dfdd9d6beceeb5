/-
# What can go wrong

Every refusal has a cause, and a cause belongs to one family. The families about
records may carry the position, in the format, of the directive at fault; the
others are about the use of the library and never do.
-/

import BitRecord.Codec.Basic

namespace BitRecord

/-- The two directions of a codec. -/
inductive Direction where
  | pack
  | unpack
  deriving DecidableEq, Repr

/-- The exception classes of causes. The first eight are about formats, values and records and may
carry a position (`Family.isLocated`). -/
inductive Family where
  | malformedFormat
  | unknownKind
  | invalidDirective
  | truncatedInput
  | argumentCount
  | argumentClass
  | literalMismatch
  | source
  | wrongClass
  | wrongValue
  | notImplemented
  | unrepresentable
  | tooMany
  | tooLarge
  deriving DecidableEq, Repr

/-- Why something is refused. -/
inductive Cause where
  /-- The format ends after an escape character. -/
  | danglingEscape
  /-- The format ends before the type of a directive. -/
  | missingKind
  /-- A literal character takes more than a byte. -/
  | wideLiteral (character : Char)
  /-- No type is written like this. -/
  | unknownKind (character : Char)
  /-- A field breaks the first rule that `Field.fault?` finds. -/
  | invalidField (fault : FieldFault) (field : Field)
  /-- The number of values is not that of the fields that take one. -/
  | valueCount (required given : Nat)
  /-- An array is not as long as its field. -/
  | arrayLength (given declared : Nat)
  /-- An integer was expected. -/
  | notInteger (given : ValueClass)
  /-- An integer is too large or too small for its width. -/
  | outOfRange (value : Int) (width : Nat)
  /-- A string of bytes was expected. -/
  | notBytes (given : ValueClass)
  /-- A sequence was expected. -/
  | notSequence (given : ValueClass)
  /-- A justified value has bits below its field. -/
  | strayBits (value count : Nat)
  /-- `Reader.take` with more bits than remain. -/
  | truncated (requested position remaining : Nat)
  /-- The bytes read for a literal are others than its own. -/
  | literalMismatch (expected found : Bytes) (byte : Nat)
  /-- The random source has no more numbers. -/
  | sourceExhausted
  /-- The random source refuses for a reason of its own. -/
  | sourceRefused (family : Family) (message : String)
  /-- A format is a text. -/
  | formatClass (given : ValueClass)
  /-- A single value is no collection of values. -/
  | singleValue (given : ValueClass)
  /-- A value has no items. -/
  | notIterable (given : ValueClass)
  /-- A range has more items than can be counted. -/
  | uncountable
  /-- A range has more items than can be listed. -/
  | unlistable
  /-- A record can be read from strings of bytes only. -/
  | unreadableBuffer (given : ValueClass)
  /-- A record can be written into buffers only. -/
  | notBuffer (given : ValueClass)
  /-- The buffer cannot change. -/
  | readOnlyBuffer (given : ValueClass)
  /-- The buffer can change, but other bytes lie between its elements. -/
  | gappedBuffer
  /-- A length is negative or larger than the buffer. -/
  | lengthOutside (length : Number) (size : Nat)
  /-- A record does not fit where it should be written. -/
  | noRoom (size capacity : Nat) (offset : Number)
  /-- A length or an offset is no number. -/
  | notNumber (given : ValueClass)
  /-- A number with a fraction is no number of bytes. -/
  | notCount
  /-- A width of no bits has no range. -/
  | noWidth
  /-- A codec lacks a direction. -/
  | notImplemented (codec : Codec) (direction : Direction)
  /-- `Bits.ofUnsigned?` or `Bits.toUnsigned?` gives nothing, or a number of bits is negative. -/
  | unrepresentable
  /-- `Directive.encode` finds no argument for a field that takes a value. -/
  | missingArgument
  /-- `DigitLimit.canRead` fails on the number of quantity digits. -/
  | longQuantity (digits : Nat)
  /-- `DigitLimit.canWrite` fails on an integer that a message quotes. -/
  | longInteger
  deriving DecidableEq, Repr

/-- The families about records, which may carry a position. -/
def Family.isLocated : Family → Bool
  | malformedFormat | unknownKind | invalidDirective | truncatedInput | argumentCount
  | argumentClass | literalMismatch | source => true
  | wrongClass | wrongValue | notImplemented | unrepresentable | tooMany | tooLarge => false

/-- The message about a field that breaks a rule. -/
def FieldFault.message (field : Field) : FieldFault → String
  | noElements => "quantity must be a positive number"
  | filledString => "string cannot be filled, it must be supplied"
  | stringArray => "string cannot be passed as an array"
  | filledArray => "filled field has no array to read from"
  | severalScalars =>
      s!"{field.count} values of type {field.kind.name} need the pointer flag"

/-- The name of a direction. -/
def Direction.name : Direction → String
  | pack => "pack"
  | unpack => "unpack"

namespace Cause

/-- The family of a cause. -/
def family : Cause → Family
  | danglingEscape | missingKind | wideLiteral _ => .malformedFormat
  | unknownKind _ => .unknownKind
  | invalidField _ _ => .invalidDirective
  | valueCount _ _ | arrayLength _ _ => .argumentCount
  | notInteger _ | outOfRange _ _ | notBytes _ | notSequence _ | strayBits _ _ => .argumentClass
  | truncated _ _ _ => .truncatedInput
  | literalMismatch _ _ _ => .literalMismatch
  | sourceExhausted => .source
  | sourceRefused family _ => family
  | formatClass _ | singleValue _ | notIterable _ | unreadableBuffer _ | notBuffer _
  | readOnlyBuffer _ | gappedBuffer | notNumber _ | notCount => .wrongClass
  | lengthOutside _ _ | noRoom _ _ _ | noWidth | longQuantity _ | longInteger => .wrongValue
  | notImplemented _ _ => .notImplemented
  | unrepresentable | missingArgument => .unrepresentable
  | uncountable => .tooMany
  | unlistable => .tooLarge

/-- The message of a cause. -/
def message : Cause → String
  | danglingEscape => "dangling '%' at the end of the format"
  | missingKind => "directive without data type"
  | wideLiteral character =>
      "literal character " ++ Quoted.ofText character.toString ++ " doesn't fit into a byte"
  | unknownKind character => "unknown data type '" ++ character.toString ++ "'"
  | invalidField fault field => fault.message field
  | valueCount required given => s!"format requires {required} values but {given} were given"
  | arrayLength given declared =>
      s!"array has {given} elements but the field declares {declared}"
  | notInteger given => "expected an integer, got " ++ given.name
  | outOfRange value width => s!"value {value} doesn't fit into {width} bits"
  | notBytes given => "string field needs a bytes-like value, got " ++ given.name
  | notSequence given => "field with pointer flag needs a sequence, got " ++ given.name
  | strayBits value count =>
      "value 0x" ++ String.ofList (Nat.toDigits 16 value)
        ++ s!" has bits set below the top {count} bits of the field"
  | truncated requested position remaining =>
      s!"{requested} bits requested at bit {position} but only {remaining} remain"
  | literalMismatch expected found byte =>
      "expected " ++ Quoted.ofBytes expected ++ s!" at byte {byte}, found "
        ++ Quoted.ofBytes found
  | sourceExhausted => "random source exhausted"
  | sourceRefused _ message => message
  | formatClass given => "format must be a string, not " ++ given.name
  | singleValue given =>
      "values must be a sequence of values, not a single " ++ given.name
  | notIterable given => "'" ++ given.name ++ "' object is not iterable"
  | uncountable => "Python int too large to convert to C ssize_t"
  | unlistable => ""
  | unreadableBuffer given => "'" ++ given.name ++ "' is the wrong kind of buffer to read from"
  | notBuffer given => "memoryview: a bytes-like object is required, not '" ++ given.name ++ "'"
  | readOnlyBuffer given => "buffer of type " ++ given.name ++ " is not writable"
  | gappedBuffer => "memoryview: casts are restricted to C-contiguous views"
  | lengthOutside length size =>
      s!"length {length.describe} is outside of the buffer (that is {size} bytes)"
  | noRoom size capacity offset =>
      s!"{size} bytes don't fit into buffer of {capacity} bytes at offset {offset.describe}"
  | notNumber given =>
      "'<' not supported between instances of '" ++ given.qualifiedName ++ "' and 'int'"
  | notCount => "slice indices must be integers or None or have an __index__ method"
  | noWidth => "negative shift count"
  | notImplemented codec direction =>
      "method " ++ codec.name ++ "." ++ direction.name ++ "() not implemented"
  | unrepresentable => "no such integer"
  | missingArgument => "no argument for the field"
  | longQuantity digits => DigitLimit.readMessage digits
  | longInteger => DigitLimit.writeMessage

/-- The cause whose message quotes integers, or `longInteger` when one of them has no decimal
digits. -/
def ifWritten (cause : Cause) (written : Bool) : Cause := if written then cause else longInteger

@[simp]
theorem ifWritten_true (cause : Cause) : cause.ifWritten true = cause := rfl

@[simp]
theorem ifWritten_false (cause : Cause) : cause.ifWritten false = longInteger := rfl

/-- The message of a cause with a position in the format behind it. -/
def messageAt (cause : Cause) (position : Int) : String :=
  cause.message ++ s!" (at offset {position})"

end Cause

/-- A cause and the position in the format of the directive at fault, if one is known. -/
structure Failure where
  cause : Cause
  position : Option Nat
  deriving DecidableEq, Repr

namespace Failure

/-- A cause with no position. -/
def unplaced (cause : Cause) : Failure := ⟨cause, none⟩

/-- A cause at a position. -/
def placed (cause : Cause) (position : Nat) : Failure := ⟨cause, some position⟩

/-- Gives a position to a failure of a located family, unless it has one already. -/
def orPlacedAt (failure : Failure) (position : Nat) : Failure :=
  if failure.cause.family.isLocated ∧ failure.position = none then ⟨failure.cause, some position⟩
  else failure

/-- The message of a failure, with its position if it has one. -/
def text (failure : Failure) : String :=
  match failure.position with
  | none => failure.cause.message
  | some position => failure.cause.messageAt position

end Failure

end BitRecord
