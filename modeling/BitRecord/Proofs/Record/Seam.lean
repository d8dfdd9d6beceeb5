/-
# Records behind each other

The place of a directive depends on the directives in front of it only through
the cursor, and whole bytes in front move it by these bytes. So a record behind
another one has the layout that it has alone when the first one ends on a byte
boundary, or when the second one starts with an aligned directive. Bytes that
follow each other may be one literal or two: the record is the same.
-/

import BitRecord.Proofs.Format.Seam
import BitRecord.Proofs.Record.Acceptance
import BitRecord.Proofs.Record.Refusal
import BitRecord.Proofs.Record.RoundTrip

namespace BitRecord

/-! ## Layouts from a byte boundary on -/

namespace Directive

theorem start_add (directive : Directive) (count cursor : Nat) :
    directive.start (8 * count + cursor) = 8 * count + directive.start cursor := by
  unfold start toBoundary
  split
  · omega
  · rfl

theorem stop_add (directive : Directive) (count cursor : Nat) :
    directive.stop (8 * count + cursor) = 8 * count + directive.stop cursor := by
  rw [stop, start_add, stop, Nat.add_assoc]

theorem gap_add (directive : Directive) (count cursor : Nat) :
    directive.gap (8 * count + cursor) = directive.gap cursor := by
  have moved := directive.start_add count cursor
  rw [start_eq, start_eq] at moved
  omega

/-- An aligned directive starts at the same bit from a cursor and from the next boundary. -/
theorem start_boundary {directive : Directive} (aligned : directive.isAligned = true)
    (cursor : Nat) : directive.start (cursor + toBoundary cursor) = directive.start cursor := by
  have whole := add_toBoundary_mod cursor
  rw [start, start, if_pos aligned, if_pos aligned, toBoundary_eq_zero_iff.mpr whole, Nat.add_zero]

end Directive

namespace Layout

/-- The cursor is on a byte boundary, or the first of `directives` is aligned. -/
def FromBoundary (cursor : Nat) (directives : List Directive) : Prop :=
  cursor % 8 = 0 ∨ ∃ first, directives.head? = some first ∧ first.isAligned = true

variable {record : Bytes} {cursor : Nat} {directives : List Directive} {bodies : List Bits}

/-- `stop` commutes with adding whole bytes to the cursor. -/
theorem stop_add (count cursor : Nat) (directives : List Directive) :
    stop (8 * count + cursor) directives = 8 * count + stop cursor directives := by
  induction directives generalizing cursor with
  | nil => rfl
  | cons directive directives ih => rw [stop_cons, stop_cons, Directive.stop_add, ih]

theorem place_add (count cursor : Nat) (directives : List Directive) (bodies : List Bits) :
    place (8 * count + cursor) directives bodies = place cursor directives bodies := by
  induction directives generalizing cursor bodies with
  | nil => rfl
  | cons directive directives ih =>
      cases bodies with
      | nil => rfl
      | cons body bodies => rw [place, place, Directive.gap_add, Directive.stop_add, ih]

/-- `slices` with whole bytes added to the cursor is `slices` of the record without these bytes. -/
theorem slices_add (record : Bytes) (count cursor : Nat) (directives : List Directive) :
    slices (Bits.ofBytes record) (8 * count + cursor) directives =
      slices (Bits.ofBytes (record.drop count)) cursor directives := by
  induction directives generalizing cursor with
  | nil => rfl
  | cons directive directives ih =>
      rw [slices, slices, Directive.start_add, Directive.stop_add, ih, Bits.ofBytes_drop,
        List.drop_drop]

theorem stop_append (cursor : Nat) (directives others : List Directive) :
    stop cursor (directives ++ others) = stop (stop cursor directives) others :=
  List.foldl_append

theorem place_append (fits : Fits directives bodies) (cursor : Nat) (others : List Directive)
    (more : List Bits) :
    place cursor (directives ++ others) (bodies ++ more) =
      place cursor directives bodies ++ place (stop cursor directives) others more := by
  induction fits generalizing cursor with
  | nil => rfl
  | cons _ _ ih =>
      rw [List.cons_append, List.cons_append, place, ih, place, stop_cons,
        List.append_assoc _ _ (place _ _ more)]

theorem slices_append (record : Bits) (cursor : Nat) (directives others : List Directive) :
    slices record cursor (directives ++ others) =
      slices record cursor directives ++ slices record (stop cursor directives) others := by
  induction directives generalizing cursor with
  | nil => rfl
  | cons directive directives ih =>
      rw [List.cons_append, slices, ih, slices, stop_cons, List.cons_append]

/-- `stop` is the same from a cursor and from the next boundary for `FromBoundary`. -/
theorem stop_boundary (from_boundary : FromBoundary cursor directives) :
    stop cursor directives = stop (cursor + toBoundary cursor) directives := by
  rcases from_boundary with whole | ⟨first, head, aligned⟩
  · rw [toBoundary_eq_zero_iff.mpr whole, Nat.add_zero]
  · obtain ⟨others, rfl⟩ := List.head?_eq_some_iff.mp head
    rw [stop_cons, stop_cons, Directive.stop, Directive.stop, Directive.start_boundary aligned]

/-- `slices` is the same from a cursor and from the next boundary for `FromBoundary`. -/
theorem slices_boundary (from_boundary : FromBoundary cursor directives) (record : Bits) :
    slices record cursor directives = slices record (cursor + toBoundary cursor) directives := by
  rcases from_boundary with whole | ⟨first, head, aligned⟩
  · rw [toBoundary_eq_zero_iff.mpr whole, Nat.add_zero]
  · obtain ⟨others, rfl⟩ := List.head?_eq_some_iff.mp head
    rw [slices, slices, Directive.stop, Directive.stop, Directive.start_boundary aligned]

/-- `place` from a cursor is zeros up to the next boundary and `place` from there, for
`FromBoundary`. -/
theorem place_boundary (from_boundary : FromBoundary cursor directives)
    (fits : Fits directives bodies) :
    place cursor directives bodies = List.replicate (toBoundary cursor) false
      ++ place (cursor + toBoundary cursor) directives bodies := by
  rcases from_boundary with whole | ⟨first, head, aligned⟩
  · rw [toBoundary_eq_zero_iff.mpr whole, Nat.add_zero]
    rfl
  · obtain ⟨others, rfl⟩ := List.head?_eq_some_iff.mp head
    cases fits with
    | cons length fits =>
        have there := toBoundary_eq_zero_iff.mpr (add_toBoundary_mod cursor)
        rw [place, place, Directive.stop, Directive.stop, Directive.start_boundary aligned,
          Directive.gap_of_aligned aligned, Directive.gap_of_aligned aligned, there,
          List.append_assoc, List.append_assoc]
        rfl

end Layout

/-! ## One literal or two -/

namespace Directive

/-- `directives` have the places of `others`: the same requests, fields and stop, the same bits
placed, and every record that `others` agree with. -/
structure Covers (directives others : List Directive) : Prop where
  requests : directives.flatMap requests = others.flatMap requests
  givenFields : givenFields directives = givenFields others
  entries : ∀ arguments numbers,
    Record.entries directives arguments numbers = Record.entries others arguments numbers
  stop : ∀ cursor, Layout.stop cursor directives = Layout.stop cursor others
  place : ∀ cursor images numbers,
    Layout.place cursor directives (Record.bodies directives images numbers) =
      Layout.place cursor others (Record.bodies others images numbers)
  contents : ∀ record cursor,
    Record.contents directives (Layout.slices record cursor directives) =
      Record.contents others (Layout.slices record cursor others)
  agrees : ∀ (record : Bytes) cursor,
    List.Forall₂ Agrees others (Layout.slices (Bits.ofBytes record) cursor others) →
      List.Forall₂ Agrees directives (Layout.slices (Bits.ofBytes record) cursor directives)

namespace Covers

theorem refl (directives : List Directive) : Covers directives directives where
  requests := rfl
  givenFields := rfl
  entries _ _ := rfl
  stop _ := rfl
  place _ _ _ := rfl
  contents _ _ := rfl
  agrees _ _ := id

/-- `Covers` is preserved by one directive in front of both lists. -/
theorem cons (directive : Directive) {directives others : List Directive}
    (covers : Covers directives others) :
    Covers (directive :: directives) (directive :: others) where
  requests := by rw [List.flatMap_cons, covers.requests, List.flatMap_cons]
  givenFields := by
    have same := covers.givenFields
    unfold Directive.givenFields at same ⊢
    rw [List.filterMap_cons, same, List.filterMap_cons]
  entries arguments numbers := by rw [Record.entries, covers.entries, Record.entries]
  stop cursor := by rw [Layout.stop_cons, covers.stop, Layout.stop_cons]
  place cursor images numbers := by
    cases directive with
    | literal data =>
        rw [Record.bodies, Layout.place, covers.place, Record.bodies, Layout.place]
    | field field =>
        rw [Record.bodies, Record.bodies]
        split
        · rw [Layout.place, covers.place, Layout.place]
        · rw [Layout.place, covers.place, Layout.place]
  contents record cursor := by
    rw [Layout.slices, Record.contents, covers.contents, Layout.slices, Record.contents]
  agrees record cursor := by
    intro each
    rw [Layout.slices, List.forall₂_cons] at each ⊢
    exact ⟨each.1, covers.agrees _ _ each.2⟩

/-- One literal covers its two parts as literals. -/
theorem literal (data more : Bytes) (directives : List Directive) :
    Covers (.literal (data ++ more) :: directives)
      (.literal data :: .literal more :: directives) := by
  -- The second literal goes on where the first one ends, for that is a byte boundary.
  have whole (cursor : Nat) : (Directive.literal data).stop cursor % 8 = 0 := by
    have aligned := eight_mul_start_literal data cursor
    rw [Directive.stop, bitSize]
    omega
  have gap (cursor : Nat) :
      (Directive.literal more).gap ((Directive.literal data).stop cursor) = 0 := by
    rw [gap_of_aligned rfl, toBoundary_eq_zero_iff.mpr (whole cursor)]
  have start (cursor : Nat) :
      (Directive.literal more).start ((Directive.literal data).stop cursor) =
        (Directive.literal data).stop cursor := by
    rw [start_eq, gap, Nat.add_zero]
  have stop (cursor : Nat) : (Directive.literal more).stop ((Directive.literal data).stop cursor) =
      (Directive.literal (data ++ more)).stop cursor := by
    have same : (Directive.literal (data ++ more)).start cursor =
      (Directive.literal data).start cursor := rfl
    rw [Directive.stop, start, Directive.stop, Directive.stop, same, bitSize, bitSize, bitSize,
      List.length_append]
    omega
  constructor
  · rfl
  · rfl
  · intro arguments numbers
    rfl
  · intro cursor
    rw [Layout.stop_cons, Layout.stop_cons, Layout.stop_cons, stop]
  · intro cursor images numbers
    rw [Record.bodies, Record.bodies, Record.bodies, Layout.place, Layout.place, Layout.place,
      stop, gap, Bits.ofBytes_append, List.replicate_zero, List.nil_append]
    simp only [List.append_assoc]
    rfl
  · intro record cursor
    rw [Layout.slices, Layout.slices, Layout.slices, stop]
    rfl
  · intro record cursor each
    rw [Layout.slices, Layout.slices, List.forall₂_cons, List.forall₂_cons, stop] at each
    obtain ⟨first, second, others⟩ := each
    have first : ((Directive.literal data).slice record cursor).toBytes = data := first
    have second : ((Directive.literal more).slice record
      ((Directive.literal data).stop cursor)).toBytes = more := second
    have behind : (Directive.literal data).stop cursor / 8 =
        (Directive.literal data).start cursor / 8 + data.length := by
      rw [Directive.stop, bitSize]
      omega
    rw [toBytes_slice_literal] at first second
    rw [start, behind] at second
    refine .cons ?_ others
    change ((Directive.literal (data ++ more)).slice record cursor).toBytes = data ++ more
    rw [toBytes_slice_literal, List.length_append, Bytes.slice_add]
    exact congrArg₂ _ first second

end Covers

/-- The directives of `join` cover those of both lists. -/
theorem covers_join (items others : List Item) :
    Covers ((Item.join items others).map Item.directive)
      (items.map Item.directive ++ others.map Item.directive) := by
  fun_induction Item.join items others with
  | case1 others => exact .refl _
  | case2 position data place more others => exact .literal data more _
  | case3 item items others _ ih => exact .cons _ ih

end Directive

/-! ## Writing one record behind another -/

/-- `toBytes` of whole bytes and further bits is these bytes and `toBytes` of the bits. -/
theorem Bits.toBytes_ofBytes_append (bytes : Bytes) (bits : Bits) :
    (ofBytes bytes ++ bits).toBytes = bytes ++ bits.toBytes := by
  apply ofBytes_injective
  have same : toBoundary (8 * bytes.length + bits.length) = toBoundary bits.length := by
    unfold toBoundary
    omega
  rw [ofBytes_toBytes, ofBytes_append, ofBytes_toBytes, completed, completed, List.length_append,
    length_ofBytes, same, List.append_assoc]

namespace RandomSource

/-- The source after it has answered the requests of `widths`. -/
def after (source : RandomSource) (widths : List Nat) : RandomSource where
  answer asked width := source.answer (widths.toArray ++ asked) width

/-- `after` with `asked` answers as the source does with the earlier requests in front of
`asked`. -/
theorem answers_after (source : RandomSource) (before : List Nat) (asked : Array Nat)
    (widths : List Nat) :
    (source.after before).answers asked widths =
      source.answers (before.toArray ++ asked) widths := by
  induction widths generalizing asked with
  | nil => rfl
  | cons width widths ih =>
      rw [answers, ih, answers, Array.append_push]
      rfl

/-- The answers to `first ++ second` are the answers to `first`, then those of `after first` to
`second`. -/
theorem answers_behind {source : RandomSource} {first second numbers : List Nat} :
    source.answers #[] (first ++ second) = .ok numbers ↔
      ∃ front back, source.answers #[] first = .ok front ∧
        (source.after first).answers #[] second = .ok back ∧ numbers = front ++ back := by
  rw [answers_append_eq_ok_iff, answers_after, Array.append_empty]
  have same : (#[] : Array Nat) ++ first = first.toArray := by simp
  rw [same]

end RandomSource

/-- `Bound` of two lists of fields and values gives `Bound` of the lists appended. -/
theorem Bound.append {fields others : List Field} {values more : List Value}
    {arguments rest : List Argument} (bound : Bound fields values arguments)
    (other_bound : Bound others more rest) :
    Bound (fields ++ others) (values ++ more) (arguments ++ rest) := by
  induction bound with
  | nil => exact other_bound
  | cons first _ ih => exact .cons first ih

/-- `Finds` is preserved by further arguments at the end. -/
theorem Directive.Finds.append {condition : Field → Payload → Prop} {directive : Directive}
    {arguments : List Argument} (found : directive.Finds condition arguments)
    (others : List Argument) :
    directive.Finds condition (arguments ++ others) ∧
      directive.rest (arguments ++ others) = directive.rest arguments ++ others ∧
      ∀ numbers, directive.body (arguments ++ others) numbers = directive.body arguments numbers ∧
        directive.entries (arguments ++ others) numbers =
          directive.entries arguments numbers := by
  cases directive with
  | literal data => exact ⟨trivial, rfl, fun numbers => ⟨rfl, rfl⟩⟩
  | field field =>
      unfold Directive.rest Directive.body Directive.entries
      dsimp only
      cases fill : field.fill with
      | some mode =>
          have filled := Field.takesValue_of_fill fill
          refine ⟨fun given => ?_, ?_, fun numbers => ⟨rfl, rfl⟩⟩
          · rw [fill] at given
            contradiction
          · rw [takesValue, filled]
            rfl
      | none =>
          obtain ⟨argument, rest, rfl, meets⟩ := found fill
          have given := Field.takesValue_iff.mpr fill
          refine ⟨fun _ => ⟨argument, rest ++ others, rfl, meets⟩, ?_, fun numbers => ⟨rfl, rfl⟩⟩
          rw [takesValue, given]
          rfl

namespace Record

/-- The `contents` of slices of `directives ++ others` are those of `directives`, then those of
`others` from the stop. -/
theorem contents_slices_append (record : Bits) (cursor : Nat)
    (directives others : List Directive) :
    contents (directives ++ others) (Layout.slices record cursor (directives ++ others)) =
      contents directives (Layout.slices record cursor directives)
        ++ contents others (Layout.slices record (Layout.stop cursor directives) others) := by
  induction directives generalizing cursor with
  | nil => rfl
  | cons directive directives ih =>
      rw [List.cons_append, Layout.slices, contents, ih, Layout.slices, contents,
        Layout.stop_cons, List.append_assoc]

/-- `bodies` and `entries` of `directives ++ others` are those of `directives` on the first
arguments and numbers, then those of `others` on the rest. -/
theorem bodies_entries_append {directives : List Directive} {arguments : List Argument}
    {numbers : List Nat}
    (carried : List.Forall₂ (fun field argument => field.Carries argument.payload)
      (Directive.givenFields directives) arguments)
    (enough : numbers.length = (directives.flatMap Directive.requests).length)
    (others : List Directive) (rest : List Argument) (more : List Nat) :
    bodies (directives ++ others)
        (images (Directive.givenFields (directives ++ others)) (arguments ++ rest))
        (numbers ++ more) =
      bodies directives (images (Directive.givenFields directives) arguments) numbers
        ++ bodies others (images (Directive.givenFields others) rest) more ∧
    entries (directives ++ others) (arguments ++ rest) (numbers ++ more) =
      entries directives arguments numbers ++ entries others rest more := by
  induction directives generalizing arguments numbers with
  | nil =>
      obtain rfl : arguments = [] := List.forall₂_nil_left_iff.mp carried
      obtain rfl : numbers = [] := List.eq_nil_of_length_eq_zero enough
      exact ⟨rfl, rfl⟩
  | cons directive directives ih =>
      obtain ⟨found, others_carried⟩ := Directive.finds_of_forall₂ carried
      rw [List.flatMap_cons] at enough
      obtain ⟨front, back, rfl, own, left⟩ := exists_append_of_length enough
      obtain ⟨found_here, same_rest, same⟩ := found.append rest
      obtain ⟨bodies_later, entries_later⟩ := ih others_carried left
      rw [List.cons_append, List.append_assoc]
      apply And.intro
      · rw [bodies_cons found_here own, bodies_cons found own, same_rest, bodies_later,
          (same front).1, List.cons_append]
      · rw [entries_cons own, entries_cons own, same_rest, entries_later, (same front).2,
          List.append_assoc]

end Record

end BitRecord
