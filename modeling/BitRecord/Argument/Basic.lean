/-
# Arguments

A field carries one of three things: an integer, several integers, or a string
of bytes. An argument is such a payload together with the kind of field that it
is for.
-/

import BitRecord.Directive.Basic
import BitRecord.Value.Describe

namespace BitRecord

/-- What a field carries. Integers are unsigned. -/
inductive Payload where
  | integer (value : Nat)
  | integers (values : List Nat)
  | bytes (data : Bytes)
  deriving DecidableEq, Repr

namespace Payload

/-- The payload as a value of its own. -/
def toValue : Payload → Value
  | integer value => .integer value
  | integers values => .list (values.map fun value : Nat => .integer value)
  | bytes data => .buffer .bytes data

/-- The shape of the value that the payload came from. -/
def shape : Payload → Shape
  | integers _ => .array
  | _ => .scalar

/-- Whether every integer of a payload has a text. -/
def canWrite : Payload → Bool
  | integer value => DigitLimit.canWrite value
  | integers values => values.all fun value : Nat => DigitLimit.canWrite value
  | bytes _ => true

/-- `toValue` keeps `canWrite`. -/
theorem canWrite_toValue (payload : Payload) : payload.toValue.canWrite = payload.canWrite := by
  cases payload with
  | integers values =>
      simp [toValue, Value.canWrite, canWrite, Value.canWriteItems_eq_all, Function.comp_def]
  | _ => rfl

/-- The text of a payload inside an argument: several integers stand in parentheses. -/
def describe : Payload → String
  | integer value => toString value
  | integers values => Value.describeTuple (values.map toString)
  | bytes data => Quoted.ofBytes data

end Payload

/-- A payload for a kind of field. -/
structure Argument where
  kind : Kind
  payload : Payload
  deriving DecidableEq, Repr

end BitRecord
