import WordMachine.Command.Run

/-!
# The command line

Reads the source files, runs the command on what they hold, prints its
transcript and writes its output file.  The payload is written as it is,
without compression.
-/

namespace WordMachine

namespace Command

/-- The text that explains the arguments. -/
def usageText : String :=
  "usage: wordmachine [-h] [--outfile OUTFILE] [--verbose] [--dump-labels] [--disasm] " ++
    "[--no-warnings] infiles [infiles ...]"

/-- The fault that stands for an error of the system. -/
def fileFaultOf : IO.Error → FileFault
  | .noFileOrDirectory .. => .noSuchFile
  | .inappropriateType _ number details =>
      if number.toNat = FileFault.notADirectory.number then .notADirectory
      else if number.toNat = FileFault.isADirectory.number then .isADirectory
      else .other number.toNat details
  | .invalidArgument _ number details =>
      if number.toNat = FileFault.nameTooLong.number then .nameTooLong
      else .other number.toNat details
  | error => .other 5 (toString error)

/-- Read the named files as far as they can be read. -/
def readFiles (names : List String) : IO (List (String × Except FileFault (List UInt8))) :=
  names.mapM (fun (name : String) => do
    try
      let bytes ← IO.FS.readBinFile name
      return (name, Except.ok bytes.toList)
    catch error =>
      return (name, Except.error (fileFaultOf error)))

/-- Print a transcript. -/
def printTranscript (transcript : Transcript) : IO Unit := do
  IO.print transcript.out
  IO.eprint transcript.err

/-- Print the transcript of a run and give its exit code. -/
def finish (outcome : Outcome) (transcript : Transcript) : IO UInt32 := do
  printTranscript transcript
  match outcome with
  | .exit code => return code.toUInt32
  | .escaped fault =>
      IO.eprintln (fault.message?.getD "A value is out of range")
      return 1

/-- Write the output file and end the run. -/
def deliverFile (name : String) (image : Image) (transcript : Transcript) : IO UInt32 := do
  if holdsNul name then
    finish (.escaped .nulInFileName) transcript
  else
    try
      IO.FS.writeBinFile name ⟨(outputContent image).toArray⟩
      let (outcome, transcript) := endOpened name image transcript
      finish outcome transcript
    catch error =>
      let (outcome, transcript) := endRefused name (fileFaultOf error) transcript
      finish outcome transcript

end Command

end WordMachine

/-- Run the command with the given arguments. -/
def main (arguments : List String) : IO UInt32 := do
  match WordMachine.Command.parseArguments arguments with
  | .error stop =>
      IO.println WordMachine.Command.usageText
      return stop.exitCode.toUInt32
  | .ok settings =>
      let contents ← WordMachine.Command.readFiles settings.infiles
      let reader : WordMachine.SourceReader :=
        .ofContents fun name => (contents.lookup name).getD (.error .noSuchFile)
      match WordMachine.Command.attempt reader settings with
      | .ended outcome transcript => WordMachine.Command.finish outcome transcript
      | .ready image transcript =>
          let name := WordMachine.Command.outputName settings
          WordMachine.Command.deliverFile name image transcript
