/-
# Sessions

A session remembers the formats that it has read. A text that is remembered is
not read again, and so leaves no events of reading; a text that was refused is
never remembered. There is room for a fixed number of texts, and the one whose
last use is longest ago makes way for a new one.
-/

import BitRecord.Record

namespace BitRecord

/-- The compiled texts with their items, the one used last in front. -/
structure Cache where
  entries : List (List Char × List Item)

namespace Cache

/-- The cache without texts. -/
def empty : Cache := ⟨[]⟩

/-- The greatest number of texts in a cache. -/
def capacity : Nat := 256

/-- The items of a text in the cache. -/
def lookup? (cache : Cache) (text : List Char) : Option (List Item) :=
  (cache.entries.find? fun entry => entry.1 = text).map (·.2)

/-- Puts a text in front of the cache and drops what is behind its capacity. -/
def remember (cache : Cache) (text : List Char) (items : List Item) : Cache :=
  ⟨(text, items) :: (cache.entries.filter fun entry => entry.1 ≠ text).take (capacity - 1)⟩

/-- `Format.compile` through the cache. Only an accepted text is put into it. -/
def compile (cache : Cache) (given : Value) : Traced Format × Cache :=
  match Format.textOf? given with
  | none => (Format.compile given, cache)
  | some text =>
      match cache.lookup? text with
      | some items => (.pure ⟨given, items⟩, cache.remember text items)
      | none =>
          let format := Format.compile given
          match format.outcome with
          | .ok compiled => (format, cache.remember text compiled.items)
          | .error _ => (format, cache)

end Cache

/-- A call of `pack` or of `unpack`, or one that only compiles a format. -/
inductive Call where
  | pack (given values : Value) (source : RandomSource)
  | unpack (given buffer length : Value)
  | measure (given : Value)

/-- The result of a call. -/
inductive Answer where
  | record (bytes : Bytes)
  | payloads (payloads : List Payload)
  | sizes (bytes bits : Nat)

namespace Call

/-- The format of a call. -/
def given : Call → Value
  | pack given _ _ => given
  | unpack given _ _ => given
  | measure given => given

/-- A call with its format compiled. -/
def run (format : Format) : Call → Traced Answer
  | pack _ values source => .record <$> format.pack values source
  | unpack _ buffer length => .payloads <$> format.unpack buffer length
  | measure _ => .pure (.sizes format.size format.bitSize)

end Call

namespace Session

/-- Runs a call, and gives the cache after it. -/
def perform (cache : Cache) (call : Call) : Traced Answer × Cache :=
  let (format, cache) := cache.compile call.given
  (format >>= fun format => call.run format, cache)

/-- Runs calls in turn, from the cache that each leaves to the next. -/
def run : Cache → List Call → List (Traced Answer)
  | _, [] => []
  | cache, call :: calls =>
      (perform cache call).1 :: run (perform cache call).2 calls

end Session

end BitRecord
