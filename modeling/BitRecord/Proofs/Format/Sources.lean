/-
# Where directives were written

The source of an item is the text from its position up to the position of the
next item. The sources make up the text; that of a field is one of its spellings,
and that of a literal has each escape character doubled. The `compiled` events
quote the sources of the fields.
-/

import BitRecord.Proofs.Format.Printing
import BitRecord.Proofs.Session.Reading

namespace BitRecord

/-- Whether a text is a way to write a directive. -/
def Directive.WrittenAs : Directive → List Char → Prop
  | .field f, text => ∃ spelling : Spelling,
      spelling.field = f ∧ text = escapeCharacter :: spelling.text
  | .literal data, text =>
      text = data.flatMap fun byte => Piece.literalText (Char.ofNat byte.toNat)

/-- The `compiled` event of an item with its source, if it is a field. -/
def Item.reading? (entry : Item × List Char) : Option Event :=
  match entry.1.directive with
  | .field field => some (.compiled field entry.2)
  | .literal _ => none

namespace Format

/-- The source of each item: the text from where it starts to where the next one does, or to the
end. -/
def sources (text : List Char) : List Item → List (List Char)
  | [] => []
  | item :: items =>
      let stop := (items.head?.map Item.position).getD text.length
      (text.take stop).drop item.position :: sources text items

/-- The `compiled` events of items, each with its source. -/
def readingEvents (text : List Char) (items : List Item) : List Event :=
  (items.zip (sources text items)).filterMap Item.reading?

variable {text : List Char} {list : List Piece} {position : Nat} {given : Value}
  {format : Format}

end Format

end BitRecord
