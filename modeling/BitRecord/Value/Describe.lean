/-
# Values as text

Two ways to show a value: plainly, and quoted as it stands inside a collection.
They differ for texts only, which are shown plainly without quotation marks. A
value with an integer of too many digits anywhere in it cannot be shown.
-/

import BitRecord.Text.Quoted
import BitRecord.Value.Basic

namespace BitRecord.Value

/-- The texts of the entries of a mapping. -/
def describeEntries : List String → List String → List String
  | key :: keys, image :: images => (key ++ ": " ++ image) :: describeEntries keys images
  | _, _ => []

/-- The text of a tuple: a comma follows the only item of a tuple of one. -/
def describeTuple (items : List String) : String :=
  match items with
  | [item] => "(" ++ item ++ ",)"
  | items => "(" ++ ", ".intercalate items ++ ")"

/-- The text of a buffer. Bytes are quoted, words are listed, and a view shows only what it is. -/
def describeBuffer (holder : Holder) (data : Bytes) : String :=
  match holder with
  | .bytes => Quoted.ofBytes data
  | .byteArray => "bytearray(" ++ Quoted.ofByteArray data ++ ")"
  | .words =>
      if data.isEmpty then "array('H')"
      else "array('H', [" ++ ", ".intercalate ((bufferItems holder data).map toString) ++ "])"
  | .view _ | .wordView _ => "<memory>"

/-- The text of a range: a step of one is left out. -/
def describeRange (start stop step : Int) : String :=
  if step = 1 then s!"range({start}, {stop})" else s!"range({start}, {stop}, {step})"

mutual

/-- The text of a value inside a collection. -/
def quoted : Value → String
  | integer value => (Number.integer value).describe
  | truth value => (Number.truth value).describe
  | null => "None"
  | text content => Quoted.ofText content
  | decimal value => (Number.decimal value).describe
  | buffer holder data => describeBuffer holder data
  | list items => "[" ++ ", ".intercalate (quotedItems items) ++ "]"
  | tuple items => describeTuple (quotedItems items)
  | range start stop step => describeRange start stop step
  | mapping keys images =>
      "\x7b" ++ ", ".intercalate (describeEntries (quotedItems keys) (quotedItems images)) ++ "\x7d"
  | iterator _ => "<list_iterator>"

/-- The texts of the items of a collection. -/
def quotedItems : List Value → List String
  | [] => []
  | item :: items => quoted item :: quotedItems items

end

mutual

/-- Whether every integer in a value has a text. -/
def canWrite : Value → Bool
  | integer value => DigitLimit.canWrite value
  | range start stop step =>
      DigitLimit.canWrite start && DigitLimit.canWrite stop && DigitLimit.canWrite step
  | list items | tuple items => canWriteItems items
  | mapping keys images => canWriteItems keys && canWriteItems images
  | truth _ | null | text _ | decimal _ | buffer _ _ | iterator _ => true

/-- Whether every integer in the items of a collection has a text. -/
def canWriteItems : List Value → Bool
  | [] => true
  | item :: items => canWrite item && canWriteItems items

end

/-- The text of a value on its own. -/
def plain : Value → String
  | text content => content
  | value => value.quoted

/-- `canWriteItems` holds when `canWrite` holds of every item. -/
theorem canWriteItems_eq_all (items : List Value) : canWriteItems items = items.all canWrite := by
  induction items with
  | nil => rfl
  | cons item items ih => simp [canWriteItems, ih]

end BitRecord.Value
