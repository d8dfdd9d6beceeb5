/-
# The turn of a directive

One step of `Format.write` logs the position of a directive, adds the body of the
directive in its place, draws the numbers of a random fill from the source and
uses up the argument of a field that takes a value. This is one equation for
every directive (`writeItem_eq`), so a property of the loop is an induction over
the items with a single case.
-/

import BitRecord.Proofs.Argument.Binding
import BitRecord.Proofs.Codec.Encoding
import BitRecord.Proofs.Format.Items
import BitRecord.Proofs.Record.Placement
import BitRecord.Record

namespace BitRecord

namespace Directive

/-- The arguments that `encode` leaves after `directive`. -/
def rest (directive : Directive) (arguments : List Argument) : List Argument :=
  if directive.takesValue then arguments.tail else arguments

/-- The bits that `encode` adds for `directive`, with the first of `numbers` drawn for it. -/
def body (directive : Directive) (arguments : List Argument) (numbers : List Nat) : Bits :=
  match directive with
  | literal data => Bits.ofBytes data
  | field f =>
      match f.fill with
      | some mode => f.fillImage mode numbers
      | none => arguments.head?.elim [] fun argument => f.image argument.payload

/-- The integers that `encode` writes for `directive`, each with the width it is written in. -/
def entries (directive : Directive) (arguments : List Argument) (numbers : List Nat) :
    List Entry :=
  match directive with
  | literal _ => []
  | field f =>
      match f.fill with
      | some _ => f.drawn numbers
      | none => arguments.head?.elim [] fun argument => f.entries argument.payload

/-- The events of `encode` for `directive`: the padding of a string that takes a value, or a `drew`
event for each number of a random fill. -/
def encodingEvents (directive : Directive) (arguments : List Argument) : List Event :=
  match directive with
  | literal _ => []
  | field f =>
      match f.fill with
      | some _ => f.requests.map .drew
      | none => arguments.head?.elim [] fun argument => f.paddingEvents argument.payload

/-- A directive that takes a value has its own field at the head of `arguments`, with a payload that
meets `condition`. -/
def Finds (condition : Field → Payload → Prop) (directive : Directive)
    (arguments : List Argument) : Prop :=
  match directive with
  | literal _ => True
  | field f => f.fill = none →
      ∃ argument others, arguments = argument :: others ∧ condition f argument.payload

variable {condition : Field → Payload → Prop} {directive : Directive}
  {arguments : List Argument} {numbers : List Nat}

/-- With arguments in the order of the fields, the first directive finds its own and leaves those of
the fields behind it, in their order. -/
theorem finds_of_forall₂ {directives : List Directive}
    (each : List.Forall₂ (fun field argument => condition field argument.payload)
      (givenFields (directive :: directives)) arguments) :
    directive.Finds condition arguments ∧
      List.Forall₂ (fun field argument => condition field argument.payload)
        (givenFields directives) (directive.rest arguments) := by
  cases directive with
  | literal data => exact ⟨trivial, each⟩
  | field field =>
      cases fill : field.fill with
      | some mode =>
          have filled := Field.takesValue_of_fill fill
          rw [givenFields_filled filled] at each
          refine ⟨fun given => ?_, ?_⟩
          · rw [fill] at given
            contradiction
          · rwa [rest, takesValue, filled]
      | none =>
          have given := Field.takesValue_iff.mpr fill
          rw [givenFields_given given] at each
          cases each with
          | @cons _ argument _ others first each =>
              refine ⟨fun _ => ⟨argument, others, rfl, first⟩, ?_⟩
              rwa [rest, takesValue, given]

/-- The entries of a directive depend only on as many numbers as it has requests. -/
theorem entries_append (enough : numbers.length = directive.requests.length) (later : List Nat) :
    directive.entries arguments (numbers ++ later) = directive.entries arguments numbers := by
  cases directive with
  | literal data => rfl
  | field field =>
      unfold entries
      dsimp only
      cases field.fill with
      | some mode => exact Field.zipWith_requests_append Entry.mk enough later
      | none => rfl

/-- The body of a directive has `bitSize` bits. -/
theorem length_body (valid : directive.Valid) (carried : directive.Finds Field.Carries arguments)
    (enough : directive.requests.length ≤ numbers.length) :
    (directive.body arguments numbers).length = directive.bitSize := by
  cases directive with
  | literal data => exact Bits.length_ofBytes data
  | field field =>
      unfold body
      dsimp only
      cases fill : field.fill with
      | some mode => exact Field.length_fillImage fill enough
      | none =>
          obtain ⟨argument, others, rfl, argument_carried⟩ := carried fill
          exact Field.length_image valid (Field.takesValue_iff.mpr fill) argument_carried

/-- For an argument that its field carries, all entries of a directive fit exactly when the numbers
drawn for it fit their requests. -/
theorem entries_fit_iff (valid : directive.Valid)
    (carried : directive.Finds Field.Carries arguments) :
    (∀ entry ∈ directive.entries arguments numbers, entry.Fits) ↔
      ∀ entry ∈ List.zipWith Entry.mk directive.requests numbers, entry.Fits := by
  cases directive with
  | literal data => exact Iff.rfl
  | field field =>
      unfold entries
      dsimp only
      cases fill : field.fill with
      | some mode => exact Iff.rfl
      | none =>
          obtain ⟨argument, others, rfl, argument_carried⟩ := carried fill
          rw [requests, Field.requests_of_given fill]
          exact iff_of_true (argument_carried.entries_fit valid) (List.forall_mem_nil _)

/-- Every request of a valid directive is for at least one bit. -/
theorem requests_pos (valid : directive.Valid) : ∀ width ∈ directive.requests, 0 < width := by
  cases directive with
  | literal data => exact List.forall_mem_nil _
  | field field => exact Field.requests_pos valid

end Directive

namespace Record

/-- One step of the loop of `Format.write`: the `packing` event, then `encode` with its failure
placed at the item. -/
def writeItem (source : RandomSource) (item : Item) (arguments : List Argument)
    (emission : Emission) : Traced (Emission × List Argument) := do
  let emission := if item.directive.isFlagged then emission.align else emission
  Traced.note (.packing item.directive emission.writer.position)
  (item.directive.encode source arguments emission).orPlacedAt item.position

/-- The `packing` event of an item at a cursor. -/
def packingEvent (visit : Item × Nat) : Event :=
  .packing visit.1.directive (visit.1.directive.turn visit.2)

/-- The emission in front of the body of `directive`, padded with zeros to a byte when the directive
is aligned. -/
def lead (directive : Directive) (emission : Emission) : Emission :=
  emission.extend (List.replicate (directive.gap emission.writer.position) false) []

variable {source : RandomSource} {item : Item} {directive : Directive} {arguments : List Argument}
  {emission : Emission} {numbers : List Nat}

@[simp]
theorem asked_lead (directive : Directive) (emission : Emission) :
    (lead directive emission).asked = emission.asked := by
  simp [lead, Emission.extend]

/-- The position after `lead` and the body is the stop of the directive. -/
theorem position_extend_lead {body : Bits} (length : body.length = directive.bitSize)
    (emission : Emission) (widths : List Nat) :
    ((lead directive emission).extend body widths).writer.position =
      directive.stop emission.writer.position := by
  simp [lead, length, Directive.stop_eq, Nat.add_assoc]

/-- `lead` of a field is `Emission.align` when it is flagged, and adds nothing otherwise. -/
private theorem lead_field (field : Field) (emission : Emission) :
    (if field.aligned then emission.align else emission) = lead (.field field) emission := by
  by_cases aligned : (Directive.field field).isAligned = true
  · rw [lead, Directive.gap_of_aligned aligned, ← Emission.align_eq_extend]
    exact if_pos aligned
  · rw [lead, Directive.gap_of_not_aligned aligned, List.replicate_zero, Emission.extend_nil]
    exact if_neg aligned

private theorem position_turn (directive : Directive) (emission : Emission) :
    (if directive.isFlagged then emission.align else emission).writer.position =
      directive.turn emission.writer.position := by
  rw [Directive.turn]
  split
  · simp [Emission.align_eq_extend]
  · rfl

/-- `encode` adds the body, draws the numbers of the requests and takes the argument. -/
theorem encode_eq (valid : directive.Valid) (carried : directive.Finds Field.Carries arguments)
    (answered : source.answers emission.asked directive.requests = .ok numbers)
    (fits : ∀ entry ∈ directive.entries arguments numbers, entry.Fits) :
    directive.encode source arguments
        (if directive.isFlagged then emission.align else emission) =
      ⟨directive.encodingEvents arguments,
        .ok ((lead directive emission).extend (directive.body arguments numbers)
          directive.requests, directive.rest arguments)⟩ := by
  cases directive with
  | literal data =>
      have aligned : emission.align = lead (.literal data) emission := emission.align_eq_extend
      have added := (lead (.literal data) emission).appendBytes_eq_extend data
      rw [← aligned] at added ⊢
      exact congrArg (fun following => (⟨[], .ok (following, arguments)⟩ : Traced _)) added
  | field field =>
      have led := lead_field field emission
      unfold Directive.isFlagged Directive.encode Directive.encodingEvents
      unfold Directive.body Directive.rest
      unfold Directive.entries at fits
      rw [led]
      dsimp only at fits ⊢
      cases fill : field.fill with
      | some mode =>
          rw [fill] at fits
          have encoded := Codec.encodeFill_eq valid fill
            (show source.answers (lead (.field field) emission).asked field.requests =
              .ok numbers by rwa [asked_lead]) fits
          have filled := Field.takesValue_of_fill fill
          simp only [encoded, Traced.ok_bind, Directive.takesValue, filled]
          rw [Traced.events_pure, List.append_nil]
          rfl
      | none =>
          obtain ⟨argument, others, rfl, argument_carried⟩ := carried fill
          have encoded := Codec.encodePayload_eq valid argument_carried
            (lead (.field field) emission)
          have given := Field.takesValue_iff.mpr fill
          simp only [encoded, Traced.ok_bind, Directive.takesValue, given]
          rw [Traced.events_pure, List.append_nil, Directive.requests, Field.requests_of_given fill]
          rfl

/-- `writeItem` logs the `packing` event, then adds `lead` and the body. -/
theorem writeItem_eq (valid : item.directive.Valid)
    (carried : item.directive.Finds Field.Carries arguments)
    (answered : source.answers emission.asked item.directive.requests = .ok numbers)
    (fits : ∀ entry ∈ item.directive.entries arguments numbers, entry.Fits) :
    writeItem source item arguments emission =
      ⟨packingEvent (item, emission.writer.position) :: item.directive.encodingEvents arguments,
        .ok ((lead item.directive emission).extend (item.directive.body arguments numbers)
          item.directive.requests, item.directive.rest arguments)⟩ := by
  have encoded := encode_eq valid carried answered fits
  rw [writeItem, position_turn, encoded]
  rfl

end Record

end BitRecord
