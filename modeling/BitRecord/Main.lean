/-
# The program

Runs the command line: numbers are drawn for the fields that need them, and the
report is printed. Errors go to the error stream, and so does the trace when the
environment asks for it.
-/

import BitRecord.CommandLine

open BitRecord

/-- A random number of at least `width` bits. -/
def randomNumber (width : Nat) : IO Nat := do
  let bytes ← IO.getRandomBytes ((width + 7) / 8).toUSize
  return bytes.data.foldl (fun number byte => number * 256 + byte.toNat) 0

/-- The name of the program. -/
def programName : String := "bitrecord"

/-- Runs the command line with the words given. -/
def main (words : List String) : IO UInt32 := do
  let numbers ← (CommandLine.requests words).mapM randomNumber
  let report := CommandLine.run (.finite (numbers.map Int.ofNat).toArray) words
  if (← IO.getEnv "DEBUG").isSome then
    for line in report.events.filterMap Event.line? do
      IO.eprintln line
  for line in report.ending.output programName do
    IO.println line
  for line in report.ending.errors do
    IO.eprintln line
  return report.ending.status.toUInt32
