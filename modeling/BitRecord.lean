import BitRecord.Buffer
import BitRecord.Main
import BitRecord.Session
import BitRecord.Proofs.Bits.Words
import BitRecord.Proofs.Codec.Image
import BitRecord.Proofs.Codec.Encoding
import BitRecord.Proofs.Record.Placement
import BitRecord.Proofs.Codec.Decoding
import BitRecord.Proofs.Record.Reading
import BitRecord.Proofs.Record.Writing
import BitRecord.Proofs.Format.Items
import BitRecord.Proofs.Record.RoundTrip
import BitRecord.Proofs.Format.Grammar
import BitRecord.Proofs.Record.Reencoding
import BitRecord.Proofs.Record.Refusal
import BitRecord.Proofs.Record.Turn
import BitRecord.Proofs.Codec.Acceptance
import BitRecord.Proofs.Format.Preparation
import BitRecord.Proofs.Record.Acceptance
import BitRecord.Proofs.Record.Walks
import BitRecord.Proofs.Buffer.InPlace
import BitRecord.Proofs.Buffer.Runs
import BitRecord.Proofs.Format.Seam
import BitRecord.Proofs.Record.Seam
import BitRecord.Proofs.Record.Concatenation
import BitRecord.Proofs.Format.Printing
import BitRecord.Proofs.Record.Sensitivity
import BitRecord.Proofs.Record.RandomFill
import BitRecord.Proofs.Session.Reading
import BitRecord.Proofs.Session.Transparency
import BitRecord.Proofs.CommandLine.Failures
import BitRecord.Proofs.CommandLine.Endings
import BitRecord.Proofs.CommandLine.RoundTrip
import BitRecord.Proofs.Cursor.Mirror
import BitRecord.Proofs.Argument.Acceptance
import BitRecord.Proofs.Argument.FirstRefusal
import BitRecord.Proofs.Format.Stopping
import BitRecord.Proofs.Format.WideLiteral
import BitRecord.Proofs.Format.LongestFlags
import BitRecord.Proofs.Format.FieldRefusal
import BitRecord.Proofs.Bits.Bijection
import BitRecord.Proofs.Record.SourceFailure
import BitRecord.Proofs.Record.Replacement
import BitRecord.Proofs.Record.BitOrders
import BitRecord.Proofs.Record.Elements
import BitRecord.Proofs.Cursor.ReaderRuns
import BitRecord.Proofs.Cursor.WriterRuns
import BitRecord.Proofs.Session.Log
import BitRecord.Proofs.Record.Literal
import BitRecord.Proofs.CommandLine.Words
import BitRecord.Proofs.Format.Description
