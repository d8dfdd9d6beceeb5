/-
# Codecs

A codec turns the bits of one directive into a payload and back. There is one
for bit runs, one for bytes and words, one for strings and one for literals; the
blank codec stands for any of them and turns nothing into anything.
-/

import BitRecord.Directive.Describe

namespace BitRecord

/-- The ways to turn bits into payloads. -/
inductive Codec where
  | blank
  | bitRun
  | integer
  | string
  | literal
  deriving DecidableEq, Repr

namespace Codec

/-- The codec of a kind of field. -/
def ofKind : Kind → Codec
  | .bit => bitRun
  | .byte | .word16 | .word32 | .word64 => integer
  | .string => string

/-- The codec of a directive. -/
def ofDirective : Directive → Codec
  | .field f => ofKind f.kind
  | .literal _ => literal

/-- The name of a codec. -/
def name : Codec → String
  | blank => "Field"
  | bitRun => "BitField"
  | integer => "IntegerField"
  | string => "StringField"
  | literal => "LiteralField"

/-- The text of a codec at work on a directive. -/
def describe (codec : Codec) (directive : Directive) : String :=
  "<" ++ codec.name ++ "(" ++ directive.describe ++ ")>"

end Codec

/-- The text of a directive together with its codec. -/
def Directive.describeCodec (directive : Directive) : String :=
  (Codec.ofDirective directive).describe directive

end BitRecord
