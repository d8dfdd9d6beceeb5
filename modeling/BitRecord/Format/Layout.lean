/-
# Where the directives lie

The place of every directive in a record follows from the directives alone. A
cursor goes over them: one that must start on a byte boundary moves the cursor
there first, and each then takes its own bits.
-/

import BitRecord.Format.Basic

namespace BitRecord

namespace Directive

/-- The bit position where a directive starts, from the cursor in front of it. -/
def start (directive : Directive) (cursor : Nat) : Nat :=
  if directive.isAligned then cursor + toBoundary cursor else cursor

/-- The cursor behind a directive. -/
def stop (directive : Directive) (cursor : Nat) : Nat :=
  directive.start cursor + directive.bitSize

end Directive

/-- The widths that a field requests from the random source: one for a whole bit run, one for each
byte or word. -/
def Field.requests (field : Field) : List Nat :=
  if field.fill = some .random then
    match field.kind with
    | .bit => [field.count]
    | kind => List.replicate field.count kind.width
  else []

/-- The widths that a directive requests from the random source. -/
def Directive.requests : Directive → List Nat
  | field f => f.requests
  | literal _ => []

namespace Layout

/-- The cursor behind all directives. -/
def stop (cursor : Nat) (directives : List Directive) : Nat :=
  directives.foldl (fun cursor directive => directive.stop cursor) cursor

end Layout

namespace Format

/-- The number of bits of a record, the completion of its last byte left out. -/
def bitSize (format : Format) : Nat := Layout.stop 0 format.directives

/-- The number of bytes of a record. -/
def size (format : Format) : Nat := (format.bitSize + 7) / 8

/-- The widths that a format requests from the random source. -/
def requests (format : Format) : List Nat := format.directives.flatMap Directive.requests

/-- The number of values that a format takes. -/
def arity (format : Format) : Nat := format.directives.countP (·.takesValue)

end Format

end BitRecord
