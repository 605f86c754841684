import WordMachine.Assembler
import WordMachine.AssemblyFault
import WordMachine.Catalog
import WordMachine.Command.Arguments
import WordMachine.Command.OutputName
import WordMachine.Command.Run
import WordMachine.Diagnostic
import WordMachine.FileFault
import WordMachine.FileSystem
import WordMachine.Image
import WordMachine.Instruction
import WordMachine.Label
import WordMachine.Layout
import WordMachine.LineTable
import WordMachine.Listing
import WordMachine.Main
import WordMachine.Numeral
import WordMachine.Payload.Field
import WordMachine.Payload.Read
import WordMachine.Payload.Write
import WordMachine.Proofs.Payload.Document
import WordMachine.Proofs.Payload.Format
import WordMachine.Proofs.Payload.RoundTrip
import WordMachine.Proofs.Program.Addresses
import WordMachine.Proofs.Program.Bench
import WordMachine.Proofs.Program.Emission
import WordMachine.Proofs.Program.Item
import WordMachine.Proofs.Program.Labels
import WordMachine.Proofs.Program.Load
import WordMachine.Proofs.Program.Parse
import WordMachine.Proofs.Program.Source
import WordMachine.Proofs.Tables
import WordMachine.Proofs.Text.Utf8
import WordMachine.Roster
import WordMachine.SignedIndex
import WordMachine.SourceReader
import WordMachine.Text.Blank
import WordMachine.Text.DecimalDigit
import WordMachine.Text.Hex
import WordMachine.Text.Hidden
import WordMachine.Text.Lines
import WordMachine.Text.Quoted
import WordMachine.Text.Utf8
import WordMachine.Token
import WordMachine.Word
import WordMachine.Workbench.Assembly
import WordMachine.Workbench.Survey
import WordMachine.Proofs.Program.Lines
import WordMachine.Proofs.Numeral
import WordMachine.Proofs.Program.Warnings
import WordMachine.Proofs.Program.Capacity
import WordMachine.Proofs.Instruction
import WordMachine.Proofs.Program.Outcome
import WordMachine.Proofs.Listing
import WordMachine.Proofs.Listing.Text
import WordMachine.Proofs.Program.Listing
import WordMachine.Proofs.Program.CatalogGrowth
import WordMachine.Proofs.Program.LayoutIndependence
import WordMachine.Proofs.Program.Continuation
import WordMachine.Proofs.Text.Words
import WordMachine.Proofs.Program.Reassembly
import WordMachine.Proofs.Program.Steps
import WordMachine.Proofs.Program.Actions
import WordMachine.Proofs.Payload.Unambiguous
import WordMachine.Proofs.Payload.NormalForm
import WordMachine.Proofs.FileSystem
import WordMachine.Proofs.Command.OutputName
import WordMachine.Proofs.Command.Delivery
import WordMachine.Proofs.Program.Faults
import WordMachine.Proofs.Command.Reports
import WordMachine.Proofs.Command.Intact
import WordMachine.Proofs.Program.Reuse
import WordMachine.Proofs.Instruction.Codec
import WordMachine.Proofs.Listing.Decoding
import WordMachine.Proofs.Listing.Tiling
import WordMachine.Proofs.Program.Overflow
import WordMachine.Proofs.Program.EntryPoint
import WordMachine.Proofs.Listing.LabelLines
import WordMachine.Proofs.Command.Sources
import WordMachine.Proofs.Tables.Arrival
import WordMachine.Proofs.Tables.LineHistory
import WordMachine.Proofs.Tables.LabelHistory
import WordMachine.Proofs.Numeral.Positional
import WordMachine.Proofs.Program.Rounds
