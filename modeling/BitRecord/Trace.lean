/-
# Traces

An operation leaves a trace: the events on its way, in order, whether it
succeeds or not. Numbers from the random source are events as well, but nothing
is said about them in the text of a trace.
-/

import BitRecord.Fault

namespace BitRecord

/-- Something that happened on the way. -/
inductive Event where
  /-- A field was read from its text. -/
  | compiled (field : Field) (text : List Char)
  /-- A value was accepted for a field. -/
  | bound (argument : Argument) (field : Field)
  /-- The walk is about to write a directive. -/
  | packing (directive : Directive) (position : Nat)
  /-- A string is shorter than its field. -/
  | padding (size count : Nat)
  /-- A record is complete. -/
  | packed (bits bytes : Nat)
  /-- The walk is about to read a directive. -/
  | unpacking (directive : Directive) (position : Nat)
  /-- A directive could not be read. -/
  | failedUnpacking (directive : Directive) (failure : Failure)
  /-- The random source gave a number of so many bits. -/
  | drew (width : Nat)
  deriving DecidableEq, Repr

namespace Event

/-- The line that an event leaves. An argument with an integer of too many digits leaves none. -/
def line? : Event → Option String
  | compiled field text =>
      some ("compiled " ++ field.describe ++ " from '" ++ String.ofList text ++ "'")
  | bound argument field =>
      if argument.payload.canWrite then
        some ("bound " ++ argument.describe ++ " to " ++ field.describe)
      else none
  | packing directive position =>
      some ("packing " ++ directive.describeCodec ++ s!" at bit {position}")
  | padding size count => some s!"padding string of {size} bytes up to {count}"
  | packed bits bytes => some s!"packed {bits} bits into {bytes} bytes"
  | unpacking directive position =>
      some ("unpacking " ++ directive.describeCodec ++ s!" at bit {position}")
  | failedUnpacking directive failure =>
      some ("failed unpacking " ++ directive.describeCodec ++ ": " ++ failure.text)
  | drew _ => none

/-- The width of a number that the random source gave. -/
def drawn? : Event → Option Nat
  | drew width => some width
  | _ => none

end Event

/-- An outcome and the events that led to it. -/
structure Traced (α : Type) where
  events : List Event
  outcome : Except Failure α

namespace Traced

variable {α β : Type}

/-- A value that took no events. -/
protected def pure (value : α) : Traced α := ⟨[], .ok value⟩

/-- Runs the second step on the value of the first one, unless this is a failure. -/
protected def bind (first : Traced α) (next : α → Traced β) : Traced β :=
  match first.outcome with
  | .error failure => ⟨first.events, .error failure⟩
  | .ok value => ⟨first.events ++ (next value).events, (next value).outcome⟩

instance : Monad Traced where
  pure := Traced.pure
  bind := Traced.bind

/-- An event. -/
def note (event : Event) : Traced Unit := ⟨[event], .ok ()⟩

/-- A failure that took no events. -/
def fail (failure : Failure) : Traced α := ⟨[], .error failure⟩

/-- A result that took no events; a refusal has no position. -/
def ofResult : Except Cause α → Traced α
  | .ok value => .pure value
  | .error cause => .fail (.unplaced cause)

/-- `Failure.orPlacedAt` on the outcome. -/
def orPlacedAt (traced : Traced α) (position : Nat) : Traced α :=
  ⟨traced.events, traced.outcome.mapError (·.orPlacedAt position)⟩

/-- The lines of a trace. -/
def lines (traced : Traced α) : List String := traced.events.filterMap Event.line?

/-- The widths of the numbers that the random source gave, in order. -/
def draws (traced : Traced α) : List Nat := traced.events.filterMap Event.drawn?

private theorem map_id (traced : Traced α) : id <$> traced = traced := by
  obtain ⟨events, outcome⟩ := traced
  cases outcome <;> simp [Functor.map, Traced.bind, Traced.pure]

private theorem bind_pure_value (value : α) (next : α → Traced β) :
    (pure value >>= next) = next value := by
  simp [bind, pure, Traced.bind, Traced.pure]

private theorem bind_bind {γ : Type} (first : Traced α) (next : α → Traced β)
    (last : β → Traced γ) :
    (first >>= next >>= last) = (first >>= fun value => next value >>= last) := by
  obtain ⟨events, outcome⟩ := first
  cases outcome with
  | error failure => rfl
  | ok value =>
      simp only [bind, Traced.bind]
      cases (next value).outcome <;> simp

/-- Traces compose associatively, with `Traced.pure` as the unit. -/
instance : LawfulMonad Traced := LawfulMonad.mk' Traced map_id bind_pure_value bind_bind

@[simp]
theorem outcome_pure (value : α) : (pure value : Traced α).outcome = .ok value := rfl

@[simp]
theorem events_pure (value : α) : (pure value : Traced α).events = [] := rfl

@[simp]
theorem outcome_note (event : Event) : (note event).outcome = .ok () := rfl

@[simp]
theorem outcome_fail (failure : Failure) : (fail failure : Traced α).outcome = .error failure := rfl

@[simp]
theorem events_fail (failure : Failure) : (fail failure : Traced α).events = [] := rfl

/-- After a success the outcome is that of the second step. -/
theorem outcome_bind_of_ok {first : Traced α} {value : α} (success : first.outcome = .ok value)
    (next : α → Traced β) : (first >>= next).outcome = (next value).outcome := by
  simp [bind, Traced.bind, success]

/-- After a failure the outcome is the failure. -/
theorem outcome_bind_of_error {first : Traced α} {failure : Failure}
    (failed : first.outcome = .error failure) (next : α → Traced β) :
    (first >>= next).outcome = .error failure := by
  simp [bind, Traced.bind, failed]

/-- The events of two steps follow each other. -/
theorem events_bind_of_ok {first : Traced α} {value : α} (success : first.outcome = .ok value)
    (next : α → Traced β) : (first >>= next).events = first.events ++ (next value).events := by
  simp [bind, Traced.bind, success]

/-- After a failure there are no more events. -/
theorem events_bind_of_error {first : Traced α} {failure : Failure}
    (failed : first.outcome = .error failure) (next : α → Traced β) :
    (first >>= next).events = first.events := by
  simp [bind, Traced.bind, failed]

/-- A trace that succeeds is its events and its value. -/
theorem eq_of_outcome {traced : Traced α} {value : α} (success : traced.outcome = .ok value) :
    traced = ⟨traced.events, .ok value⟩ := by
  rw [← success]

/-- A success that left events, followed by another step. -/
theorem ok_bind (events : List Event) (value : α) (next : α → Traced β) :
    ((⟨events, .ok value⟩ : Traced α) >>= next) =
      ⟨events ++ (next value).events, (next value).outcome⟩ := rfl

/-- A failure that left events is not followed by another step. -/
theorem error_bind (events : List Event) (failure : Failure) (next : α → Traced β) :
    ((⟨events, .error failure⟩ : Traced α) >>= next) = ⟨events, .error failure⟩ := rfl

/-- A change of the value leaves the events as they are. -/
theorem map_eq (change : α → β) (traced : Traced α) :
    change <$> traced = ⟨traced.events, traced.outcome.map change⟩ := by
  obtain ⟨events, outcome⟩ := traced
  cases outcome <;> simp [Functor.map, Traced.bind, Traced.pure, Except.map]

/-- `ofResult` of a value is a left unit. -/
theorem ofResult_ok_bind (value : α) (next : α → Traced β) :
    (ofResult (.ok value) >>= next) = next value :=
  bind_pure_value value next

/-- `ofResult` of a cause is not followed by another step. -/
theorem ofResult_error_bind (cause : Cause) (next : α → Traced β) :
    (ofResult (.error cause) >>= next) = fail (.unplaced cause) := rfl

/-- `ofResult` succeeds exactly with the value of the result. -/
theorem outcome_ofResult_eq_ok_iff {result : Except Cause α} {value : α} :
    (ofResult result).outcome = .ok value ↔ result = .ok value := by
  cases result with
  | ok other => simp [ofResult, Traced.pure]
  | error cause =>
      apply iff_of_false
      · intro success
        contradiction
      · intro success
        contradiction

/-- Two steps succeed exactly when the first one does and the second one does with its value. -/
theorem outcome_bind_eq_ok_iff {first : Traced α} {next : α → Traced β} {result : β} :
    (first >>= next).outcome = .ok result ↔
      ∃ value, first.outcome = .ok value ∧ (next value).outcome = .ok result := by
  cases outcome : first.outcome with
  | error failure => simp [outcome_bind_of_error outcome]
  | ok value => simp [outcome_bind_of_ok outcome]

end Traced

end BitRecord
