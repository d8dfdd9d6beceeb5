/-
# Directives as text

The names by which kinds, orders and fills are known, and the one-line text of a
directive. Attributes at their default are left out of it.
-/

import BitRecord.Argument.Basic

namespace BitRecord

/-- The name of a kind. -/
def Kind.name : Kind → String
  | bit => "BIT"
  | byte => "BYTE"
  | word16 => "WORD16"
  | word32 => "WORD32"
  | word64 => "WORD64"
  | string => "STRING"

/-- The name of an order. -/
def Order.name : Order → String
  | native => "NATIVE"
  | little => "LITTLE_ENDIAN"
  | big => "BIG_ENDIAN"

/-- The name of a fill. -/
def Fill.name : Fill → String
  | zeros => "ZEROS"
  | ones => "ONES"
  | random => "RANDOM"

/-- The name of a shape. -/
def Shape.name : Shape → String
  | scalar => "SCALAR"
  | array => "ARRAY"

/-- The name of the alignment to a byte boundary. -/
def alignmentName : String := "BYTE"

namespace Field

/-- The attributes of a field, those at their default left out. -/
def attributes (field : Field) : List String :=
  [field.kind.name]
    ++ (if field.count = 1 then [] else ["x" ++ toString field.count])
    ++ (if field.order = .native then [] else [field.order.name])
    ++ (if field.aligned then [alignmentName] else [])
    ++ (match field.fill with
        | none => []
        | some fill => [fill.name])
    ++ (if field.shape = .scalar then [] else [field.shape.name])

/-- The text of a field. -/
def describe (field : Field) : String :=
  "<FieldDirective(" ++ ",".intercalate field.attributes ++ ")>"

end Field

/-- The text of a directive. -/
def Directive.describe : Directive → String
  | field f => f.describe
  | literal data => "<LiteralDirective(" ++ Quoted.ofBytes data ++ ")>"

/-- The text of an argument. -/
def Argument.describe (argument : Argument) : String :=
  "<Argument(" ++ argument.kind.name ++ ", " ++ argument.payload.describe ++ ")>"

end BitRecord
