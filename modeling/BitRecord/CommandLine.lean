/-
# The command line

Two commands: one packs values into a record and shows it in hexadecimal digits,
the other unpacks such digits and shows what they hold. Every command line has
one of a few endings, and the ending fixes the status, the lines printed and the
errors logged: the status is one for a command line that is misused and for a
value that cannot be read or shown, and two for anything that is wrong about the
format or the record.
-/

import BitRecord.Record
import BitRecord.ValueText

namespace BitRecord.CommandLine

/-- How a command line ends. -/
inductive Ending where
  /-- The command line is not understood. -/
  | misused
  /-- A value cannot be read. -/
  | invalidValue (message : String)
  /-- A value of the record cannot be shown, after the lines of those in front of it. -/
  | unshown (lines : List String) (message : String)
  /-- The format, the values or the record are refused. -/
  | refused (failure : Failure)
  /-- A failure of any other family, which no command line leads to. -/
  | unforeseen (failure : Failure)
  /-- The operation succeeds, with lines to print. -/
  | done (lines : List String)

/-- The lines that explain the command line of a program. -/
def usage (program : String) : List String :=
  [ "usage: " ++ program ++ " pack <format> [values...]",
    "       " ++ program ++ " unpack <format> <hex data>",
    "",
    "The values for pack are",
    "",
    " - integers in any base python understands (12, 0x0c, 0b1100, 0o14)",
    " - comma separated integers for fields with the pointer flag (1,2,3,4)",
    " - strings prefixed by \"s:\" (s:hello) or raw bytes in hex prefixed by \"x:\" (x:cafe)",
    "",
    "Set the DEBUG environment variable to see what happens." ]

namespace Ending

/-- The exit status. -/
def status : Ending → Nat
  | done _ => 0
  | misused | invalidValue _ | unshown _ _ => 1
  | refused _ => 2
  | unforeseen _ => 3

/-- The lines to print. -/
def output (program : String) : Ending → List String
  | done lines | unshown lines _ => lines
  | misused => usage program
  | _ => []

/-- The errors to log. -/
def errors : Ending → List String
  | done _ | misused => []
  | invalidValue message | unshown _ message => ["invalid value: " ++ message]
  | refused failure | unforeseen failure => [failure.text]

/-- The ending of a failure, by its family. -/
def ofFailure (failure : Failure) : Ending :=
  if failure.cause.family.isLocated then refused failure
  else if failure.cause.family = .wrongValue then invalidValue failure.text
  else unforeseen failure

/-- The ending of an operation, that of its result when it succeeds. -/
def ofOutcome {α : Type} (ending : α → Ending) : Except Failure α → Ending
  | .ok result => ending result
  | .error failure => ofFailure failure

/-- The ending after the payloads of a record are shown, one a line. -/
def ofPayloads (payloads : List Payload) : Ending :=
  match ValueText.formatAll (payloads.map Payload.toValue) with
  | (lines, none) => done lines
  | (lines, some refusal) => unshown lines refusal.message

end Ending

/-- An ending and the events that led to it. -/
structure Report where
  events : List Event
  ending : Ending

/-- The report of an operation, with the ending of its result when it succeeds. -/
def Report.ofTraced {α : Type} (traced : Traced α) (ending : α → Ending) : Report :=
  ⟨traced.events, .ofOutcome ending traced.outcome⟩

/-- Packs the values written in words. The format is read before any of them. -/
def runPack (given : String) (words : List String) (source : RandomSource) : Report :=
  let format := Format.compile (.text given)
  match format.outcome with
  | .error failure => ⟨format.events, .ofFailure failure⟩
  | .ok compiled =>
      match words.mapM fun word => ValueText.parse word.toList with
      | .error refusal => ⟨format.events, .invalidValue refusal.message⟩
      | .ok values =>
          .ofTraced (format >>= fun _ => compiled.pack (.list values) source) fun record =>
            .done [Hex.ofBytes record]

/-- Unpacks the record written in the only word. The format is read before it. -/
def runUnpack (given : String) (words : List String) : Report :=
  let format := Format.compile (.text given)
  match format.outcome, words with
  | .error failure, _ => ⟨format.events, .ofFailure failure⟩
  | .ok compiled, [word] =>
      match ValueText.parseHex word.toList with
      | .error refusal => ⟨format.events, .invalidValue refusal.message⟩
      | .ok record =>
          .ofTraced (format >>= fun _ => compiled.unpack (.buffer .bytes record) .null)
            Ending.ofPayloads
  | .ok _, _ => ⟨format.events, .misused⟩

/-- The widths that a command line requests from the random source. -/
def requests : List String → List Nat
  | "pack" :: format :: _ =>
      match (Format.compile (.text format)).outcome with
      | .ok compiled => compiled.requests
      | .error _ => []
  | _ => []

/-- Runs a command line. -/
def run (source : RandomSource) : List String → Report
  | "pack" :: format :: words => runPack format words source
  | "unpack" :: format :: words => runUnpack format words
  | _ => ⟨[], .misused⟩

end BitRecord.CommandLine
