/-
# Where the bits of a record lie

The layout of a format gives every directive its place, independent of the bits
in it. `place` puts a string of bits for each directive into these places, and
`slices` takes such strings out of a record again; the one undoes the other
(`slices_place`). The `Role` of a bit is `content` for the bits of literals and
of fields that take a value; every other bit is filled in, or is in front of a
byte boundary.
-/

import BitRecord.Format.Layout
import Mathlib.Data.List.Forall2

namespace BitRecord

/-- The role of a bit in the layout. -/
inductive Role where
  /-- It belongs to a literal or to a field that takes a value. -/
  | content
  /-- It belongs to a filled field. -/
  | filled (fill : Fill)
  /-- It leads up to the byte boundary that a directive starts on. -/
  | alignment
  /-- It completes the last byte. -/
  | completion
  deriving DecidableEq, Repr

/-- The bit that stands in every record, if the role prescribes one. -/
def Role.pattern? : Role → Option Bool
  | .content | .filled .random => none
  | .filled .ones => some true
  | .filled .zeros | .alignment | .completion => some false

namespace Directive

/-- The number of padding bits between the cursor and the start of a directive. -/
def gap (directive : Directive) (cursor : Nat) : Nat :=
  if directive.isAligned then toBoundary cursor else 0

/-- The role of the bits of a directive. -/
def role : Directive → Role
  | .field f =>
      match f.fill with
      | some fill => .filled fill
      | none => .content
  | .literal _ => .content

theorem start_eq (directive : Directive) (cursor : Nat) :
    directive.start cursor = cursor + directive.gap cursor := by
  unfold start gap
  split <;> rfl

theorem gap_of_aligned {directive : Directive} (aligned : directive.isAligned = true)
    (cursor : Nat) : directive.gap cursor = toBoundary cursor := if_pos aligned

theorem gap_of_not_aligned {directive : Directive} (free : ¬ directive.isAligned = true)
    (cursor : Nat) : directive.gap cursor = 0 := if_neg free

/-- A directive starts at the cursor or on the next boundary. -/
theorem start_le_boundary (directive : Directive) (cursor : Nat) :
    directive.start cursor ≤ cursor + toBoundary cursor := by
  unfold start
  split
  · exact Nat.le_refl _
  · exact Nat.le_add_right _ _

theorem stop_eq (directive : Directive) (cursor : Nat) :
    directive.stop cursor = cursor + directive.gap cursor + directive.bitSize := by
  rw [stop, start_eq]

/-- Whole bytes that reach to the cursor reach to the start of a directive behind it. -/
theorem start_le_of_le {cursor size : Nat} (inside : cursor ≤ 8 * size) (directive : Directive) :
    directive.start cursor ≤ 8 * size := by
  have boundary := directive.start_le_boundary cursor
  unfold toBoundary at boundary
  omega

/-- A literal starts on a byte boundary. -/
theorem eight_mul_start_literal (data : Bytes) (cursor : Nat) :
    8 * ((literal data).start cursor / 8) = (literal data).start cursor := by
  have whole : (literal data).start cursor % 8 = 0 := add_toBoundary_mod cursor
  omega

/-- The position in the `packing` or `unpacking` event of a directive: behind the alignment of a
flagged field, but in front of the alignment of a literal. -/
def turn (directive : Directive) (cursor : Nat) : Nat :=
  if directive.isFlagged then cursor + toBoundary cursor else cursor

end Directive

namespace Layout

/-- Bits for each directive, put into their places with zeros for the padding in front of them. -/
def place : (cursor : Nat) → List Directive → List Bits → Bits
  | cursor, directive :: directives, body :: bodies =>
      List.replicate (directive.gap cursor) false ++ body
        ++ place (directive.stop cursor) directives bodies
  | _, _, _ => []

/-- The bits of a record that lie in the place of each directive. -/
def slices (record : Bits) : (cursor : Nat) → List Directive → List Bits
  | _, [] => []
  | cursor, directive :: directives =>
      (record.drop (directive.start cursor)).take directive.bitSize
        :: slices record (directive.stop cursor) directives

/-- The roles of the bits from the cursor on. -/
def roles : (cursor : Nat) → List Directive → List Role
  | _, [] => []
  | cursor, directive :: directives =>
      List.replicate (directive.gap cursor) .alignment
        ++ List.replicate directive.bitSize directive.role
        ++ roles (directive.stop cursor) directives

/-- One string of bits for each directive, as long as the directive. -/
def Fits : List Directive → List Bits → Prop :=
  List.Forall₂ fun directive body => body.length = directive.bitSize

/-- Each item with the cursor in front of it. -/
def visits : (cursor : Nat) → List Item → List (Item × Nat)
  | _, [] => []
  | cursor, item :: items => (item, cursor) :: visits (item.directive.stop cursor) items

@[simp]
theorem stop_nil (cursor : Nat) : stop cursor [] = cursor := rfl

@[simp]
theorem stop_cons (cursor : Nat) (directive : Directive) (directives : List Directive) :
    stop cursor (directive :: directives) = stop (directive.stop cursor) directives := rfl

/-- The cursor never goes back. -/
theorem le_stop (cursor : Nat) (directives : List Directive) : cursor ≤ stop cursor directives := by
  induction directives generalizing cursor with
  | nil => exact Nat.le_refl cursor
  | cons directive directives ih =>
      have step := directive.stop_eq cursor
      have later := ih (directive.stop cursor)
      rw [stop_cons]
      omega

/-- No directive reaches beyond the last one. -/
theorem stop_le_of_mem_visits {cursor : Nat} {items : List Item} {visit : Item × Nat}
    (member : visit ∈ visits cursor items) :
    visit.1.directive.stop visit.2 ≤ stop cursor (items.map Item.directive) := by
  induction items generalizing cursor with
  | nil => contradiction
  | cons item items ih =>
      rw [List.map_cons, stop_cons]
      rcases List.mem_cons.mp member with rfl | later
      · exact le_stop _ _
      · exact ih later

/-- Placed bits reach from the cursor to the end of the last directive. -/
theorem length_place {directives : List Directive} {bodies : List Bits}
    (fits : Fits directives bodies) (cursor : Nat) :
    cursor + (place cursor directives bodies).length = stop cursor directives := by
  induction fits generalizing cursor with
  | nil => rfl
  | @cons directive body directives bodies length _ ih =>
      have step := directive.stop_eq cursor
      rw [stop_cons, ← ih (directive.stop cursor), place]
      simp only [List.length_append, List.length_replicate, length]
      omega

/-- There is a role for every bit from the cursor to the end of the last directive. -/
theorem length_roles (cursor : Nat) (directives : List Directive) :
    cursor + (roles cursor directives).length = stop cursor directives := by
  induction directives generalizing cursor with
  | nil => rfl
  | cons directive directives ih =>
      have step := directive.stop_eq cursor
      rw [stop_cons, ← ih (directive.stop cursor), roles]
      simp only [List.length_append, List.length_replicate]
      omega

/-- `slices` is inverse to `place`, whatever follows the record. -/
theorem slices_place {directives : List Directive} {bodies : List Bits}
    (fits : Fits directives bodies) (front back : Bits) :
    slices (front ++ place front.length directives bodies ++ back) front.length directives =
      bodies := by
  induction fits generalizing front with
  | nil => rfl
  | @cons directive body directives bodies length _ ih =>
      let lead := front ++ List.replicate (directive.gap front.length) false
      have lead_length : lead.length = directive.start front.length := by
        simp [lead, Directive.start_eq]
      have next_length : (lead ++ body).length = directive.stop front.length := by
        rw [List.length_append, lead_length, length, Directive.stop]
      have later := ih (lead ++ body)
      rw [next_length] at later
      have whole : front ++ place front.length (directive :: directives) (body :: bodies) ++ back =
          lead ++ body ++ place (directive.stop front.length) directives bodies ++ back := by
        simp [lead, place]
      rw [slices, whole, later]
      simp only [List.append_assoc]
      rw [List.drop_left' lead_length, List.take_left' length]

/-- The slices of a record that is long enough have the lengths of the directives. -/
theorem fits_slices {record : Bits} {cursor : Nat} {directives : List Directive}
    (enough : stop cursor directives ≤ record.length) :
    Fits directives (slices record cursor directives) := by
  induction directives generalizing cursor with
  | nil => exact .nil
  | cons directive directives ih =>
      rw [stop_cons] at enough
      have inside := le_stop (directive.stop cursor) directives
      rw [Directive.stop] at inside
      refine .cons ?_ (ih enough)
      rw [List.length_take, List.length_drop]
      rw [Directive.stop] at enough
      omega

end Layout

namespace Format

/-- `format.size ≤ count` exactly when `count` bytes have `format.bitSize` bits. -/
theorem size_le_iff {format : Format} {count : Nat} :
    format.size ≤ count ↔ format.bitSize ≤ 8 * count := by
  rw [size]
  omega

/-- The role of every bit of a record. -/
def roles (format : Format) : List Role :=
  Layout.roles 0 format.directives
    ++ List.replicate (toBoundary format.bitSize) .completion

/-- There is a role for every bit of every byte. -/
theorem length_roles (format : Format) : format.roles.length = 8 * format.size := by
  have length := Layout.length_roles 0 format.directives
  rw [roles, List.length_append, List.length_replicate, size]
  rw [Nat.zero_add] at length
  rw [length, ← bitSize, toBoundary]
  omega

end Format

end BitRecord
