import WordMachine.Assembler
import WordMachine.Command.Arguments
import WordMachine.Command.OutputName
import WordMachine.FileSystem
import WordMachine.Listing
import WordMachine.Payload.Read
import WordMachine.Text.Quoted

/-!
# Running the command

The command loads its source files, prints warnings and the reports it was
asked for, and then writes the payload.  Everything that happens before the
output file is opened is a function of the files that are read.  The output
file is opened, and thereby emptied, before the payload is made.
-/

namespace WordMachine

/-- The assembler of the command. -/
def Assembler.standard : Assembler :=
  ⟨Catalog.standard, maxCapacity, none⟩

namespace Command

/-- A fault that the command does not report itself. -/
inductive Fault where
  | assembly (fault : AssemblyFault)
  | listing (fault : ListingFault)
  /-- The name of the output file holds a NUL character. -/
  | nulInFileName
  /-- Some value of the image does not fit its field in the payload. -/
  | unencodable
deriving DecidableEq

/-- The text of a fault that the command does not report itself, if it has one. -/
def Fault.message? : Fault → Option String
  | .assembly fault => fault.message?
  | .listing fault => fault.message?
  | .nulInFileName => AssemblyFault.nulInFileName.message?
  | .unencodable => none

/-- How the command ends. -/
inductive Outcome where
  | exit (code : Nat)
  | escaped (fault : Fault)
deriving DecidableEq

/-- What the command prints: standard output and standard error. -/
structure Transcript where
  out : String
  err : String
deriving DecidableEq

/-- A line of text with its end. -/
def line (text : String) : String := text ++ "\n"

/-- The lines of several texts. -/
def lines (texts : List String) : String :=
  String.join (texts.map line)

/-- The warnings of an image as printed. -/
def warningText (settings : Settings) (image : Image) : String :=
  if settings.noWarnings then ""
  else lines (image.warnings.toList.map (fun warning => "Warning: " ++ warning.render))

/-- The summary of an image as printed. -/
def summaryText (settings : Settings) (image : Image) : String :=
  if settings.verbose then
    lines
      [ "Assembled " ++ toString (image.length - codeStart) ++ " words",
        "Entry point: " ++ toString image.entry,
        "Source lines: " ++ toString image.lines.size ]
  else ""

/-- The labels in order of address; labels of one address stay in table order. -/
def sortedLabels (image : Image) : List (String × Int) :=
  image.labels.items.mergeSort (fun left right => decide (left.2 ≤ right.2))

/-- The labels of an image as printed. -/
def labelText (settings : Settings) (image : Image) : String :=
  if settings.dumpLabels then
    lines ((sortedLabels image).map (fun item => item.1 ++ ": " ++ toString item.2))
  else ""

/-- The listing of an image as printed. -/
def listingText (settings : Settings) (image : Image) : Except ListingFault String :=
  if settings.disasm then (Listing.render image Catalog.standard).map line else .ok ""

/-- The state of the command when the output file is about to be opened. -/
inductive Attempt where
  | ended (outcome : Outcome) (transcript : Transcript)
  | ready (image : Image) (transcript : Transcript)

/-- Print the reports on a loaded image. -/
def reportOn (settings : Settings) (image : Image) : Attempt :=
  let err := warningText settings image
  let out := summaryText settings image ++ labelText settings image
  match listingText settings image with
  | .error fault => .ended (.escaped (.listing fault)) ⟨out, err⟩
  | .ok listing => .ready image ⟨out ++ listing, err⟩

/-- Load the source files and print the reports on them. -/
def attempt (reader : SourceReader) (settings : Settings) : Attempt :=
  match (Assembler.standard.load reader settings.infiles).1 with
  | .ok image => reportOn settings image
  | .error fault =>
      match fault.report? with
      | some report => .ended (.exit 1) ⟨"", line ("Assembler error: " ++ report.render)⟩
      | none => .ended (.escaped (.assembly fault)) ⟨"", ""⟩

/-- The name of the output file. -/
def outputName (settings : Settings) : String :=
  if settings.outfile = "" then defaultOutput (settings.infiles.headD "") else settings.outfile

/-- The line that reports a fault of the output file. -/
def writeFaultLine (name : String) (fault : FileFault) : String :=
  line ("Error writing output: [Errno " ++ toString fault.number ++ "] " ++ fault.description ++
    ": " ++ Text.Quoted.text name)

/-- The result of a run: how it ended, what it printed, and the files after it. -/
structure Result where
  outcome : Outcome
  transcript : Transcript
  files : FileSystem
  /-- The path that was written and what was written there. -/
  written? : Option (Path × List UInt8)

/-- What an output file holds after it was opened: the payload, or nothing if there is none. -/
def outputContent (image : Image) : List UInt8 :=
  (Payload.encode? image).getD []

/-- How a run ends once the output file has been opened. -/
def endOpened (name : String) (image : Image) (transcript : Transcript) : Outcome × Transcript :=
  match Payload.encode? image with
  | none => (.escaped .unencodable, transcript)
  | some _ =>
      (.exit 0, { transcript with out := transcript.out ++ line ("Output written to " ++ name) })

/-- How a run ends whose output file cannot be opened. -/
def endRefused (name : String) (fault : FileFault) (transcript : Transcript) :
    Outcome × Transcript :=
  (.exit 1, { transcript with err := transcript.err ++ writeFaultLine name fault })

/-- Write the payload of an image to the output file. -/
def deliver (files : FileSystem) (name : String) (image : Image) (transcript : Transcript) :
    Result :=
  if holdsNul name then
    ⟨.escaped .nulInFileName, transcript, files, none⟩
  else
    match files.pathToWrite name with
    | .error fault =>
        let (outcome, transcript) := endRefused name fault transcript
        ⟨outcome, transcript, files, none⟩
    | .ok path =>
        let content := outputContent image
        let (outcome, transcript) := endOpened name image transcript
        ⟨outcome, transcript, files.writeFile path content, some (path, content)⟩

/-- Run the command on a file system. -/
def run (files : FileSystem) (settings : Settings) : Result :=
  match attempt files.reader settings with
  | .ended outcome transcript => ⟨outcome, transcript, files, none⟩
  | .ready image transcript => deliver files (outputName settings) image transcript

end Command

end WordMachine
