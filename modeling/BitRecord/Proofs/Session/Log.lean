/-
# The lines of a call

A call whose format is not in the cache logs a `compiled` event for every field
and a `bound` event for every value that is accepted. `pack` goes on with a
`packing` event for every directive, a `padding` event for a string that is too
short, and `packed` at the end. `unpack` goes on with an `unpacking` event for
every directive up to the first one that cannot be read, and `failedUnpacking` of
that one. Draws are events that are not logged. `Event.Lines` spells the text of
every line; only a `bound` event of an integer beyond the digit limit has none.
-/

import BitRecord.Proofs.Argument.Progress
import BitRecord.Proofs.Format.Sources
import BitRecord.Proofs.Record.Acceptance
import BitRecord.Proofs.Record.Walks

namespace BitRecord

/-- Whether an event is logged: all are but `drew`. -/
def Event.isLogged (event : Event) : Bool := event.drawn?.isNone

/-- The lines of logged events, in order. A `bound` event of an integer with more digits than
`DigitLimit.digits` leaves no line, because the line would quote the integer. -/
inductive Event.Lines : List Event → List String → Prop
  | nil : Lines [] []
  | compiled {events : List Event} {lines : List String} (field : Field) (source : List Char)
      (rest : Lines events lines) :
      Lines (.compiled field source :: events)
        (("compiled " ++ field.describe ++ " from '" ++ String.ofList source ++ "'") :: lines)
  | bound {events : List Event} {lines : List String} {argument : Argument} (field : Field)
      (written : argument.payload.canWrite = true) (rest : Lines events lines) :
      Lines (.bound argument field :: events)
        (("bound " ++ argument.describe ++ " to " ++ field.describe) :: lines)
  | unwritten {events : List Event} {lines : List String} {argument : Argument} (field : Field)
      (long : argument.payload.canWrite = false) (rest : Lines events lines) :
      Lines (.bound argument field :: events) lines
  | packing {events : List Event} {lines : List String} (directive : Directive) (position : Nat)
      (rest : Lines events lines) :
      Lines (.packing directive position :: events)
        (("packing " ++ directive.describeCodec ++ s!" at bit {position}") :: lines)
  | padding {events : List Event} {lines : List String} (size count : Nat)
      (rest : Lines events lines) :
      Lines (.padding size count :: events)
        (s!"padding string of {size} bytes up to {count}" :: lines)
  | packed {events : List Event} {lines : List String} (bits bytes : Nat)
      (rest : Lines events lines) :
      Lines (.packed bits bytes :: events) (s!"packed {bits} bits into {bytes} bytes" :: lines)
  | unpacking {events : List Event} {lines : List String} (directive : Directive) (position : Nat)
      (rest : Lines events lines) :
      Lines (.unpacking directive position :: events)
        (("unpacking " ++ directive.describeCodec ++ s!" at bit {position}") :: lines)
  | failedUnpacking {events : List Event} {lines : List String} (directive : Directive)
      (failure : Failure) (rest : Lines events lines) :
      Lines (.failedUnpacking directive failure :: events)
        (("failed unpacking " ++ directive.describeCodec ++ ": " ++ failure.text) :: lines)

/-- Whether an operation logs exactly these events, in order, with their lines. -/
def Traced.Logs {α : Type} (traced : Traced α) (logged : List Event) : Prop :=
  traced.events.filter Event.isLogged = logged ∧ Event.Lines logged traced.lines

/-- The `padding` event of a string that is given fewer bytes than its field has. -/
def Directive.shortfall : Directive → List Argument → List Event
  | .field f, ⟨_, .bytes data⟩ :: _ =>
      if f.kind = .string ∧ data.length < f.count then [.padding data.length f.count] else []
  | _, _ => []

/-- The logged events of items that are written from a cursor on: for each a `packing` event at its
turn, and the `padding` event of a string that is too short. -/
def Record.packingEvents : (cursor : Nat) → List Item → List Argument → List Event
  | _, [], _ => []
  | cursor, item :: items, arguments =>
      packingEvent (item, cursor) :: item.directive.shortfall arguments
        ++ packingEvents (item.directive.stop cursor) items (item.directive.rest arguments)

/-- The events that calls with an accepted format log. -/
structure Format.Shape (text : List Char) (format : Format) (given : Value)
    (answer : Call → Traced Answer) : Prop where
  /-- The sources quoted for fields and those of the literals make up the text. -/
  whole : (sources text format.items).flatten = text
  /-- Each directive stands in its source. -/
  written : List.Forall₂ Directive.WrittenAs format.directives (sources text format.items)
  /-- A call of `pack` that succeeds. -/
  packed : ∀ values source record,
    (answer (.pack given values source)).outcome = .ok (.record record) →
    ∃ bound arguments, format.Progress values bound (.ok arguments) ∧
      (answer (.pack given values source)).Logs
        (readingEvents text format.items ++ bound
          ++ Record.packingEvents 0 format.items arguments
          ++ [.packed format.bitSize format.size])
  /-- A call of `pack` whose values are refused. -/
  unbound : ∀ values source failure, (format.bind values).outcome = .error failure →
    (answer (.pack given values source)).outcome = .error failure ∧
      ∃ bound, format.Progress values bound (.error failure) ∧
        (answer (.pack given values source)).Logs (readingEvents text format.items ++ bound)
  /-- A call of `unpack` that succeeds. -/
  unpacked : ∀ buffer length payloads,
    (answer (.unpack given buffer length)).outcome = .ok (.payloads payloads) →
    (answer (.unpack given buffer length)).Logs
      (readingEvents text format.items
        ++ (Layout.visits 0 format.items).map Record.unpackingEvent)
  /-- A call of `unpack` that fails with an error of a located family: the last event is
  `failedUnpacking` of the directive at its position. -/
  stopped : ∀ buffer length failure,
    (answer (.unpack given buffer length)).outcome = .error failure →
    failure.cause.family.isLocated = true →
    ∃ front visit back cause, Layout.visits 0 format.items = front ++ visit :: back ∧
      failure = .placed cause visit.1.position ∧
      (answer (.unpack given buffer length)).Logs
        (readingEvents text format.items ++ (front ++ [visit]).map Record.unpackingEvent
          ++ [.failedUnpacking visit.1.directive (visit.1.report cause)])

namespace Format

variable {text : List Char} {given : Value} {format : Format}

theorem logged_boundEvents (fields : List Field) (arguments : List Argument) :
    ∀ event ∈ boundEvents fields arguments, event.isLogged = true := by
  intro event member
  induction fields generalizing arguments with
  | nil => contradiction
  | cons field fields ih =>
      cases arguments with
      | nil => contradiction
      | cons argument arguments =>
          rcases List.mem_cons.mp member with rfl | later
          · rfl
          · exact ih arguments later

/-- Every event of `Format.bind` is logged. -/
theorem Progress.logged {values : Value} {events : List Event}
    {outcome : Except Failure (List Argument)} (progress : format.Progress values events outcome) :
    ∀ event ∈ events, event.isLogged = true := by
  cases progress with
  | none => exact List.forall_mem_nil _
  | some | all => exact logged_boundEvents _ _

end Format

namespace Session

variable {cache : Cache} {text : List Char} {given : Value} {format : Format} {call : Call}

end Session

end BitRecord
