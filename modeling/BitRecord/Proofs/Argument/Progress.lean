/-
# How far values are bound

`Format.bind` refuses a value that is no collection, or not one of `Format.arity`
values, before any of them is checked. Otherwise the values are bound one after
the other, each leaves a `bound` event when it is accepted, and binding ends at
the first one that its field refuses: neither it nor those behind it leave an
event.
-/

import BitRecord.Proofs.Argument.FirstRefusal

namespace BitRecord.Format

/-- Whether a value is a collection of as many values as a format takes. -/
structure Takes (format : Format) (values : Value) (items : List Value) : Prop where
  several : values.isSingle = false
  countable : values.hasItemsBelow Value.countBound = true
  listable : values.hasItemsBelow Value.listBound = true
  listed : values.items? = some items
  enough : items.length = format.arity

/-- How far `Format.bind` gets: the events it leaves, and its outcome. -/
inductive Progress (format : Format) (values : Value) :
    List Event → Except Failure (List Argument) → Prop
  /-- The values are no collection of `Format.arity` values. -/
  | none {failure : Failure} (unsuited : ∀ items, ¬ format.Takes values items)
      (unplaced : failure.position = .none) : Progress format values [] (.error failure)
  /-- The values in front suit their fields, and the next one is refused. -/
  | some {front back : List Item} {position : Nat} {field : Field} {earlier later : List Value}
      {value : Value} {arguments : List Argument} {family : Family} {cause : Cause}
      (takes : format.Takes values (earlier ++ value :: later))
      (items_eq : format.items = front ++ ⟨position, .field field⟩ :: back)
      (given : field.takesValue = true)
      (accepted : Accepted (Directive.givenFields (front.map Item.directive)) earlier arguments)
      (refused : field.Refuses value family cause) :
      Progress format values
        (boundEvents (Directive.givenFields (front.map Item.directive)) arguments)
        (.error ⟨cause,
          if family = .tooMany ∨ family = .wrongValue then .none else .some position⟩)
  /-- All values suit their fields. -/
  | all {items : List Value} {arguments : List Argument} (takes : format.Takes values items)
      (accepted : Accepted format.givenFields items arguments) :
      Progress format values (boundEvents format.givenFields arguments) (.ok arguments)

variable {format : Format} {values : Value} {items : List Value}

end BitRecord.Format
