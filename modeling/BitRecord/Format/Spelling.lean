/-
# How a field is written

A field is written as an escape character, flags in a fixed order, the letter of
its type and, if no fill was written before the letter, a fill after it. Each
part but the letter may be missing, and a reader takes every part that it can,
so a text has at most one reading. The spelling keeps the digits of the quantity
as they are written: nothing about the text is lost.
-/

import BitRecord.Directive.Basic
import BitRecord.Text.DigitLimit

namespace BitRecord

/-- The character that starts a field and that stands for itself when written twice. -/
def escapeCharacter : Char := '%'

/-- The character that makes a field take an array. -/
def pointerFlag : Char := 'p'

/-- The character that puts a field on a byte boundary. -/
def alignFlag : Char := 'a'

/-- The letter of a kind. -/
def Kind.letter : Kind → Char
  | bit => 'i'
  | byte => 'y'
  | word16 => 'w'
  | word32 => 'd'
  | word64 => 'q'
  | string => 's'

/-- The kind that a letter stands for. -/
def Kind.ofLetter? : Char → Option Kind
  | 'i' => some bit
  | 'y' => some byte
  | 'w' => some word16
  | 'd' => some word32
  | 'q' => some word64
  | 's' => some string
  | _ => none

/-- The character of a fill. -/
def Fill.flag : Fill → Char
  | zeros => '0'
  | ones => '1'
  | random => 'r'

/-- The fill that a character stands for. -/
def Fill.ofFlag? : Char → Option Fill
  | '0' => some zeros
  | '1' => some ones
  | 'r' => some random
  | _ => none

/-- The order that a character stands for. -/
def Order.ofFlag? : Char → Option Order
  | 'l' => some little
  | 'b' => some big
  | _ => none

/-- The characters that an order is written with: none for the native one. -/
def Order.flag : Order → List Char
  | native => []
  | little => ['l']
  | big => ['b']

/-- The ten digits of a quantity. -/
def isQuantityDigit (character : Char) : Bool := '0' ≤ character && character ≤ '9'

/-- The number that decimal digits write. -/
def quantityOf (digits : List Char) : Nat :=
  digits.foldl (fun number digit => 10 * number + (digit.toNat - '0'.toNat)) 0

/-- Takes a character with a meaning off the front of a text. -/
def takeFlag? {α : Type} (meaning : Char → Option α) : List Char → Option α × List Char
  | [] => (none, [])
  | character :: rest =>
      match meaning character with
      | some value => (some value, rest)
      | none => (none, character :: rest)

/-- Takes one certain character off the front of a text. -/
def takeMark (mark : Char) : List Char → Bool × List Char
  | [] => (false, [])
  | character :: rest => if character = mark then (true, rest) else (false, character :: rest)

/-- The text of a mark that may be missing. -/
def markText (mark : Char) (present : Bool) : List Char := if present then [mark] else []

/-- The parts of a field in front of the letter of its type. -/
structure Flags where
  /-- Whether the pointer flag is there. -/
  pointer : Bool
  /-- The digits of the quantity, none when it is left out. -/
  digits : List Char
  /-- Whether the alignment flag is there. -/
  aligned : Bool
  /-- The order, native when none is written. -/
  order : Order
  /-- The fill, if one is written here. -/
  fill : Option Fill
  deriving DecidableEq, Repr

namespace Flags

/-- The text of the flags. -/
def text (flags : Flags) : List Char :=
  markText pointerFlag flags.pointer ++ flags.digits
    ++ markText alignFlag flags.aligned ++ flags.order.flag
    ++ (flags.fill.map Fill.flag).toList

/-- Takes as many flags as there are off the front of a text. -/
def read (text : List Char) : Flags × List Char :=
  let pointer := takeMark pointerFlag text
  let aligned := takeMark alignFlag (pointer.2.dropWhile isQuantityDigit)
  let order := takeFlag? Order.ofFlag? aligned.2
  let fill := takeFlag? Fill.ofFlag? order.2
  (⟨pointer.1, pointer.2.takeWhile isQuantityDigit, aligned.1, order.1.getD .native, fill.1⟩,
    fill.2)

end Flags

/-- A field as it is written after the escape character. -/
structure Spelling where
  flags : Flags
  kind : Kind
  /-- The fill after the letter, never there when the flags have one. -/
  lateFill : Option Fill
  deriving DecidableEq, Repr

namespace Spelling

/-- The text of a field, the escape character left out. -/
def text (spelling : Spelling) : List Char :=
  spelling.flags.text ++ spelling.kind.letter :: (spelling.lateFill.map Fill.flag).toList

/-- Whether the quantity has few enough digits to be read. -/
def isReadable (spelling : Spelling) : Bool := DigitLimit.canRead spelling.flags.digits.length

/-- The field that a spelling describes. The quantity is one when it is left out. -/
def field (spelling : Spelling) : Field where
  kind := spelling.kind
  count := if spelling.flags.digits.isEmpty then 1 else quantityOf spelling.flags.digits
  order := spelling.flags.order
  aligned := spelling.flags.aligned
  fill := spelling.flags.fill <|> spelling.lateFill
  shape := if spelling.flags.pointer then .array else .scalar

end Spelling

theorem Spelling.isReadable_iff {spelling : Spelling} :
    spelling.isReadable = true ↔ spelling.flags.digits.length ≤ DigitLimit.digits :=
  DigitLimit.canRead_iff

theorem length_takeFlag?_le {α : Type} (meaning : Char → Option α) (text : List Char) :
    (takeFlag? meaning text).2.length ≤ text.length := by
  unfold takeFlag?
  split
  · exact Nat.le_refl _
  · split <;> simp

theorem length_takeMark_le (mark : Char) (text : List Char) :
    (takeMark mark text).2.length ≤ text.length := by
  unfold takeMark
  split
  · exact Nat.le_refl _
  · split <;> simp

/-- Reading flags never makes a text longer. -/
theorem Flags.length_read_le (text : List Char) : (Flags.read text).2.length ≤ text.length :=
  calc
    _ ≤ _ := length_takeFlag?_le Fill.ofFlag? _
    _ ≤ _ := length_takeFlag?_le Order.ofFlag? _
    _ ≤ _ := length_takeMark_le alignFlag _
    _ ≤ _ := (List.dropWhile_sublist isQuantityDigit).length_le
    _ ≤ _ := length_takeMark_le pointerFlag text

theorem Kind.letter_of_ofLetter? {letter : Char} {kind : Kind}
    (known : Kind.ofLetter? letter = some kind) : kind.letter = letter := by
  unfold Kind.ofLetter? at known
  split at known <;> simp at known <;> subst known <;> rfl

theorem text_takeMark (mark : Char) (text : List Char) :
    markText mark (takeMark mark text).1 ++ (takeMark mark text).2 = text := by
  cases text with
  | nil => rfl
  | cons first rest => by_cases same : first = mark <;> simp [takeMark, markText, same]

theorem Order.flag_takeFlag? (text : List Char) :
    ((takeFlag? Order.ofFlag? text).1.getD .native).flag ++ (takeFlag? Order.ofFlag? text).2 =
      text := by
  cases text with
  | nil => rfl
  | cons first rest =>
      simp only [takeFlag?, Order.ofFlag?]
      split <;> rename_i taken <;> split at taken <;> simp_all [Order.flag]
      all_goals subst taken; rfl

theorem Fill.flag_takeFlag? (text : List Char) :
    ((takeFlag? Fill.ofFlag? text).1.map Fill.flag).toList ++ (takeFlag? Fill.ofFlag? text).2 =
      text := by
  cases text with
  | nil => rfl
  | cons first rest =>
      simp only [takeFlag?, Fill.ofFlag?]
      split <;> rename_i taken <;> split at taken <;> simp_all [Fill.flag]
      all_goals subst taken; rfl

/-- The flags read and the rest make up the text. -/
theorem Flags.text_read (text : List Char) :
    (Flags.read text).1.text ++ (Flags.read text).2 = text := by
  simp only [Flags.read, Flags.text, List.append_assoc, Fill.flag_takeFlag?, Order.flag_takeFlag?,
    text_takeMark, List.takeWhile_append_dropWhile]

end BitRecord
