/-
# Values

What callers hand over: numbers, texts, byte strings in several holders, and
collections. A value is only ever looked at in a few ways: by its class, as a
string of bytes, as a sequence with a length, and as something to go through
item by item.
-/

import BitRecord.Bits.Basic
import BitRecord.Value.Class
import BitRecord.Value.Number

namespace BitRecord

/-- A value of a caller. -/
inductive Value where
  | integer (value : Int)
  | truth (value : Bool)
  | null
  | text (content : String)
  | decimal (value : Binary64)
  | buffer (holder : Holder) (data : Bytes)
  | list (items : List Value)
  | tuple (items : List Value)
  | range (start stop step : Int)
  | mapping (keys images : List Value)
  | iterator (items : List Value)
  deriving Inhabited

namespace Value

/-- The class of a value. -/
def valueClass : Value → ValueClass
  | integer _ => .integer
  | truth _ => .truth
  | null => .null
  | text _ => .text
  | decimal _ => .decimal
  | buffer holder _ => .buffer holder
  | list _ => .list
  | tuple _ => .tuple
  | range _ _ _ => .range
  | mapping _ _ => .mapping
  | iterator _ => .iterator

/-- The number that a value is. -/
def number? : Value → Option Number
  | integer value => some (.integer value)
  | truth value => some (.truth value)
  | decimal value => some (.decimal value)
  | _ => none

/-- The integer that a value stands for where something is counted. -/
def count? (value : Value) : Option Int := value.number?.bind Number.count?

/-- The number of integers from `start` towards `stop`, which is left out, in steps of `step`. -/
def rangeLength (start stop step : Int) : Nat :=
  if 0 < step then ((stop - start + step - 1) / step).toNat
  else ((start - stop - step - 1) / (-step)).toNat

/-- The integers of a range. -/
def rangeItems (start stop step : Int) : List Int :=
  (List.range (rangeLength start stop step)).map fun index : Nat => start + step * index

/-- The 16 bit words of a byte string, the low byte of each in front. -/
def wordItems : Bytes → List Nat
  | low :: high :: rest => (low.toNat + 256 * high.toNat) :: wordItems rest
  | _ => []

/-- The elements of a buffer, each of `elementSize` bytes of its holder. -/
def bufferItems (holder : Holder) (data : Bytes) : List Nat :=
  if holder.elementSize = 2 then wordItems data else data.map (·.toNat)

/-- The bytes of a value that counts as a string of bytes. -/
def asBytes? : Value → Option Bytes
  | buffer holder data => if holder.isBytesLike then some data else none
  | _ => none

/-- The length of a value that counts as a sequence. It is computed without the items, so that a
long range costs nothing. -/
def sequenceLength? : Value → Option Nat
  | list items | tuple items => some items.length
  | range start stop step => some (rangeLength start stop step)
  | buffer holder data => some (bufferItems holder data).length
  | _ => none

/-- The items of a value that can be gone through, in order: a mapping gives its keys, a text
its characters. -/
def items? : Value → Option (List Value)
  | list items | tuple items | iterator items => some items
  | mapping keys _ => some keys
  | range start stop step => some ((rangeItems start stop step).map integer)
  | buffer holder data => some ((bufferItems holder data).map fun item : Nat => integer item)
  | text content => some (content.toList.map fun character => text character.toString)
  | integer _ | truth _ | null | decimal _ => none

/-- The number of the items of a value that can be gone through, known without listing a range. -/
def itemCount? : Value → Option Nat
  | range start stop step => some (rangeLength start stop step)
  | value => value.items?.map List.length

/-- The number of the items is the length of their list. -/
theorem itemCount?_eq (value : Value) : value.itemCount? = value.items?.map List.length := by
  cases value <;> simp [itemCount?, items?, rangeItems]

/-- The number of items from which on a range cannot be counted. -/
def countBound : Nat := 2 ^ (63 : Nat)

/-- The number of items from which on a range cannot be listed. -/
def listBound : Nat := 2 ^ (44 : Nat)

/-- Whether a value has a bounded number of items. Only a range can have more than can be held, as
it does not hold them. -/
def hasItemsBelow (bound : Nat) : Value → Bool
  | range start stop step => decide (rangeLength start stop step < bound)
  | _ => true

/-- Texts and strings of bytes are single values, although they can be gone through. -/
def isSingle : Value → Bool
  | text _ => true
  | value => value.asBytes?.isSome

end Value

end BitRecord
