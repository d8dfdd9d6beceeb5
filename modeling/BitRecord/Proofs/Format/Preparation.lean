/-
# Events in front of the walk

`Format.compile` leaves `compiled` events only and `Format.bind` leaves `bound`
events only, whether they succeed or not. So there is no event of a directive and
no draw among them.
-/

import BitRecord.Argument.Bind

namespace BitRecord

/-- Whether an event is `compiled` or `bound`. -/
def Event.isPreparation : Event → Bool
  | compiled _ _ | bound _ _ => true
  | _ => false

theorem Event.eq_of_isPreparation {event : Event} (early : event.isPreparation = true) :
    (∃ field text, event = compiled field text) ∨
      ∃ argument field, event = bound argument field := by
  cases event with
  | compiled field text => exact .inl ⟨field, text, rfl⟩
  | bound argument field => exact .inr ⟨argument, field, rfl⟩
  | packing | padding | packed | unpacking | failedUnpacking | drew => contradiction

namespace Traced

variable {α β : Type}

/-- Whether all events of an operation are `compiled` or `bound`. -/
def Prepares (traced : Traced α) : Prop := ∀ event ∈ traced.events, event.isPreparation = true

theorem prepares_of_silent {traced : Traced α} (silent : traced.events = []) :
    traced.Prepares := by
  intro event member
  rw [silent] at member
  contradiction

/-- A change of the value at the end leaves no events of its own. -/
theorem events_bind_pure (first : Traced α) (change : α → β) :
    (first >>= fun value => pure (change value)).events = first.events := by
  rw [bind_pure_comp, map_eq]

/-- A property of the events of two steps holds of the events of both together. -/
theorem forall_events_bind {holds : Event → Prop} {first : Traced α} {next : α → Traced β}
    (early : ∀ event ∈ first.events, holds event)
    (late : ∀ value, ∀ event ∈ (next value).events, holds event) :
    ∀ event ∈ (first >>= next).events, holds event := by
  intro event member
  cases outcome : first.outcome with
  | error failure =>
      rw [events_bind_of_error outcome] at member
      exact early event member
  | ok value =>
      rw [events_bind_of_ok outcome] at member
      rcases List.mem_append.mp member with before | behind
      · exact early event before
      · exact late value event behind

/-- `Prepares` of two steps one after the other. -/
theorem Prepares.bind {first : Traced α} {next : α → Traced β} (first_prepares : first.Prepares)
    (next_prepares : ∀ value, (next value).Prepares) : (first >>= next).Prepares :=
  forall_events_bind first_prepares next_prepares

/-- Filtering for other events gives none. -/
theorem Prepares.filterMap_eq_nil {traced : Traced α} (prepares : traced.Prepares)
    {select : Event → Option β}
    (other : ∀ event : Event, event.isPreparation = true → select event = none) :
    traced.events.filterMap select = [] :=
  List.filterMap_eq_nil_iff.mpr fun event member => other event (prepares event member)

/-- There are no draws among the events. -/
theorem Prepares.draws_eq_nil {traced : Traced α} (prepares : traced.Prepares) :
    traced.draws = [] := by
  refine prepares.filterMap_eq_nil fun event early => ?_
  rcases Event.eq_of_isPreparation early with ⟨_, _, rfl⟩ | ⟨_, _, rfl⟩ <;> rfl

end Traced

namespace Format

private theorem pieceItem_prepares (position : Nat) (piece : Piece) :
    (pieceItem position piece).Prepares := by
  cases piece with
  | run | dangling | cutOff | unknown => exact Traced.prepares_of_silent rfl
  | field spelling =>
      rw [pieceItem, fieldItem]
      split
      · split
        · exact Traced.prepares_of_silent rfl
        · exact List.forall_mem_singleton.mpr rfl
      · exact Traced.prepares_of_silent rfl

private theorem itemsOf_prepares (position : Nat) (pieces : List Piece) :
    (itemsOf position pieces).Prepares := by
  induction pieces generalizing position with
  | nil => exact Traced.prepares_of_silent rfl
  | cons piece rest ih =>
      unfold itemsOf
      split
      · exact Traced.prepares_of_silent rfl
      · exact Traced.prepares_of_silent rfl
      · rename_i same
        obtain ⟨rfl, rfl⟩ := List.cons.inj same
        exact (pieceItem_prepares position piece).bind fun item =>
          (ih _).bind fun items => Traced.prepares_of_silent rfl

/-- `compile` leaves no other events. -/
theorem compile_prepares (given : Value) : (compile given).Prepares := by
  rw [compile]
  split
  · exact Traced.prepares_of_silent rfl
  · exact (itemsOf_prepares 0 _).bind fun items => Traced.prepares_of_silent rfl

private theorem bindItems_events (items : List Item) (values : List Value) :
    ∀ event ∈ (bindItems items values).events, ∃ argument field, event = .bound argument field := by
  induction items generalizing values with
  | nil => exact List.forall_mem_nil _
  | cons item items ih =>
      unfold bindItems
      split
      · contradiction
      · rename_i same
        obtain ⟨rfl, rfl⟩ := List.cons.inj same
        split
        · split
          · exact List.forall_mem_nil _
          · split
            · exact List.forall_mem_nil _
            · refine Traced.forall_events_bind ?_ fun _ => ?_
              · exact List.forall_mem_singleton.mpr ⟨_, _, rfl⟩
              · exact Traced.forall_events_bind (ih _) fun arguments => List.forall_mem_nil _
        · exact ih _
      · rename_i same
        obtain ⟨rfl, rfl⟩ := List.cons.inj same
        exact ih _

/-- `Format.bind` leaves `bound` events only. -/
theorem bind_events (format : Format) (values : Value) :
    ∀ event ∈ (format.bind values).events, ∃ argument field, event = .bound argument field := by
  unfold bind
  split
  · exact List.forall_mem_nil _
  · split
    · exact List.forall_mem_nil _
    · split
      · exact List.forall_mem_nil _
      · split
        · exact List.forall_mem_nil _
        · split
          · exact bindItems_events _ _
          · exact List.forall_mem_nil _

/-- `Format.bind` leaves no other events. -/
theorem bind_prepares (format : Format) (values : Value) : (format.bind values).Prepares := by
  intro event member
  obtain ⟨argument, field, rfl⟩ := format.bind_events values event member
  rfl

end Format

end BitRecord
