/-
# Random sources

A source answers requests for numbers of so many bits, and its answer may depend
on the widths of all earlier requests. A finite source refuses when its numbers
are used up (`Cause.sourceExhausted`), and any other source can refuse for a
reason of its own (`Cause.sourceRefused`). The numbers of a source may be
integers of both signs, because only their low bits are used.
-/

import BitRecord.Bits.TwosComplement
import BitRecord.Fault

namespace BitRecord

/-- A source of random numbers, which may depend on the widths requested before. -/
structure RandomSource where
  /-- The answer to a request of `width` bits after requests of the widths `asked`. -/
  answer : (asked : Array Nat) → (width : Nat) → Except Cause Nat

namespace RandomSource

/-- The numbers in turn, each cut to the width; after the last one the source refuses with
`sourceExhausted`. -/
def finite (numbers : Array Int) : RandomSource where
  answer asked width :=
    match numbers[asked.size]? with
    | some number => .ok (lowBits number width)
    | none => .error .sourceExhausted

/-- The numbers in turn, each cut to the width, starting again after the last one. -/
def cyclic (numbers : Array Int) : RandomSource where
  answer asked width :=
    match numbers[asked.size % numbers.size]? with
    | some number => .ok (lowBits number width)
    | none => .error .sourceExhausted

/-- Whether every request is answered by a number below `2 ^ width`. -/
def InRange (source : RandomSource) : Prop :=
  ∀ asked width, ∃ number, source.answer asked width = .ok number ∧ number < 2 ^ width

/-- A cyclic source of at least one number is in range. -/
theorem inRange_cyclic {numbers : Array Int} (some_number : 0 < numbers.size) :
    (cyclic numbers).InRange := by
  intro asked width
  have index_lt : asked.size % numbers.size < numbers.size := Nat.mod_lt _ some_number
  refine ⟨lowBits numbers[asked.size % numbers.size] width, ?_, lowBits_lt _ _⟩
  simp [cyclic, index_lt]

end RandomSource

end BitRecord
