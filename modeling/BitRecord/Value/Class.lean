/-
# Classes of values

Callers hand over values of many classes, and a value of the wrong class is
reported by the name of its class.
-/

namespace BitRecord

/-- How a view gives access to the bytes of its elements. -/
inductive ViewAccess where
  /-- The bytes lie next to each other and can change. -/
  | whole
  /-- The bytes cannot change. -/
  | readOnly
  /-- The bytes can change, but others lie between the elements. -/
  | gapped
  deriving DecidableEq, Repr

/-- The ways to hold a string of bytes. -/
inductive Holder where
  /-- bytes that cannot change -/
  | bytes
  /-- bytes that can change -/
  | byteArray
  /-- a view of bytes held elsewhere -/
  | view (access : ViewAccess)
  /-- an array of 16 bit words -/
  | words
  /-- a view of such an array -/
  | wordView (access : ViewAccess)
  deriving DecidableEq, Repr

namespace Holder

/-- The name of the class. -/
def name : Holder → String
  | bytes => "bytes"
  | byteArray => "bytearray"
  | view _ | wordView _ => "memoryview"
  | words => "array"

/-- The number of bytes of one element. -/
def elementSize : Holder → Nat
  | words | wordView _ => 2
  | _ => 1

/-- Everything but an array of words counts as a string of bytes. -/
def isBytesLike : Holder → Bool
  | words => false
  | _ => true

/-- Everything but unchangeable bytes and views for reading only can be written to. -/
def isWritable : Holder → Bool
  | bytes | view .readOnly | wordView .readOnly => false
  | _ => true

/-- Whether the bytes lie next to each other, so that the elements can be taken apart into
bytes in place. -/
def isContiguous : Holder → Bool
  | view .gapped | wordView .gapped => false
  | _ => true

end Holder

/-- The class of a value. -/
inductive ValueClass where
  | integer
  | truth
  | null
  | text
  | decimal
  | buffer (holder : Holder)
  | list
  | tuple
  | range
  | mapping
  | iterator
  deriving DecidableEq, Repr

/-- The name of a class of values. -/
def ValueClass.name : ValueClass → String
  | integer => "int"
  | truth => "bool"
  | null => "NoneType"
  | text => "str"
  | decimal => "float"
  | buffer holder => holder.name
  | list => "list"
  | tuple => "tuple"
  | range => "range"
  | mapping => "dict"
  | iterator => "list_iterator"

/-- The name of a class together with that of its family, where it has one. -/
def ValueClass.qualifiedName : ValueClass → String
  | buffer .words => "array.array"
  | given => given.name

end BitRecord
