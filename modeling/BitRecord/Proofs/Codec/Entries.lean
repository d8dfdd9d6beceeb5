/-
# The integers that are written

Bytes and constant fills reach a record as they are. Everything else is an
integer that must have a form in a number of bits, and a writer has no form for
an integer that is too large or for no bits at all. The entries of a field are
these integers, with their widths: they all fit when the payload is one that the
field carries, however large its elements and whatever its order.
-/

import BitRecord.Format.Layout
import BitRecord.Proofs.Codec.Image

namespace BitRecord

/-- An integer to be written in `width` bits. -/
structure Entry where
  width : Nat
  value : Nat
  deriving DecidableEq, Repr

namespace Entry

/-- The width is positive and the integer below `2 ^ width`. -/
def Fits (entry : Entry) : Prop := 0 < entry.width ∧ entry.value < 2 ^ entry.width

instance (entry : Entry) : Decidable entry.Fits := inferInstanceAs (Decidable (_ ∧ _))

/-- `ofUnsigned?` gives nothing for an entry that does not fit. -/
theorem ofUnsigned?_eq_none {entry : Entry} (unfit : ¬ entry.Fits) (order : Order) :
    Bits.ofUnsigned? order entry.width entry.value = none := by
  have missing : ¬ (0 < (entry.width : Int) ∧ 0 ≤ (entry.value : Int) ∧
      (entry.value : Int) < 2 ^ (entry.width : Int).toNat) := by
    intro parts
    obtain ⟨width_pos, _, small⟩ := parts
    exact unfit ⟨by exact_mod_cast width_pos, by exact_mod_cast small⟩
  rw [Bits.ofUnsigned?, if_neg missing]

end Entry

namespace Field

/-- The integers written for a payload. The elements of a bit array are single bits already. -/
def entries (field : Field) : Payload → List Entry
  | .bytes _ => []
  | .integers values => if field.kind = .bit then [] else values.map (Entry.mk field.width)
  | .integer value =>
      if field.kind = .bit then
        [⟨field.count, if field.order = .little then value / 2 ^ field.justification else value⟩]
      else [⟨field.width, value⟩]

/-- The numbers drawn for a random fill, with the widths requested. -/
def drawn (field : Field) (numbers : List Nat) : List Entry :=
  List.zipWith Entry.mk field.requests numbers

/-- Whether a payload is of the sort that a field writes: bytes for a string, integers for any other
field. -/
def Suits (field : Field) : Payload → Prop
  | .bytes _ => field.kind = .string
  | .integer _ | .integers _ => field.kind ≠ .string

variable {field : Field} {payload : Payload}

theorem Carries.suits (carried : field.Carries payload) : field.Suits payload := by
  cases carried with
  | string kind | array kind | scalar kind => exact kind

/-- The integers of a payload that a field carries fit in their widths. -/
theorem Carries.entries_fit (valid : field.Valid) (carried : field.Carries payload) :
    ∀ entry ∈ field.entries payload, entry.Fits := by
  cases carried with
  | string => exact List.forall_mem_nil _
  | array kind shape length small =>
      rw [entries]
      split
      · exact List.forall_mem_nil _
      · exact List.forall_mem_map.mpr fun value member => ⟨field.width_pos, small value member⟩
  | scalar kind shape small =>
      rw [entries]
      by_cases run : field.kind = .bit
      · rw [if_pos run, List.forall_mem_singleton]
        refine ⟨valid.count_pos, ?_⟩
        by_cases little : field.order = .little
        · simpa only [if_pos little] using div_justification_lt run small
        · simpa only [if_neg little] using lt_count_of_ne_little run little small
      · rw [if_neg run, List.forall_mem_singleton]
        rw [scalarWidth_of_ne_bit run] at small
        exact ⟨field.width_pos, small⟩

/-- The requests of a valid field are of at least one bit. -/
theorem requests_pos (valid : field.Valid) : ∀ width ∈ field.requests, 0 < width := by
  intro width member
  rw [requests] at member
  split at member
  · split at member
    · rw [List.mem_singleton.mp member]
      exact valid.count_pos
    · rw [List.eq_of_mem_replicate member]
      exact Kind.width_pos _
  · contradiction

/-- `List.zipWith` with the requests of a field depends on as many numbers as requests. -/
theorem zipWith_requests_append {β : Type} (make : Nat → Nat → β) {numbers : List Nat}
    (enough : numbers.length = field.requests.length) (others : List Nat) :
    List.zipWith make field.requests (numbers ++ others) =
      List.zipWith make field.requests numbers := by
  have split : List.zipWith make (field.requests ++ []) (numbers ++ others) =
      List.zipWith make field.requests numbers ++ List.zipWith make [] others :=
    List.zipWith_append enough.symm
  simpa using split

end Field

end BitRecord
