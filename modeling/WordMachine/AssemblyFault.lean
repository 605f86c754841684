import WordMachine.Diagnostic
import WordMachine.FileFault
import WordMachine.Instruction
import WordMachine.Numeral
import WordMachine.Text.Utf8

/-!
# Assembly faults

The ways in which loading a program can fail.  An unreadable source and a
program that does not fit are faults of the user's files and are reported
with their place.  The others come from numbers and line records beyond every
limit, from catalogs whose operations cannot be encoded, and from addresses
beyond the tokens or words at hand.
-/

namespace WordMachine

/-- Why a source file cannot be read as text. -/
inductive SourceFault where
  | file (fault : FileFault)
  | text (fault : Text.Utf8.Fault)
deriving DecidableEq

/-- The words that describe a source fault. -/
def SourceFault.description : SourceFault → String
  | .file fault => fault.description
  | .text fault => fault.message

/-- Why assembly stops. -/
inductive AssemblyFault where
  /-- A source file cannot be read. -/
  | unreadableSource (filename : String) (fault : SourceFault)
  /-- A word does not fit; `source` is the line it came from. -/
  | capacityExceeded (capacity : Int) (source : SourceLine)
  /-- A file name holds a NUL character. -/
  | nulInFileName
  /-- A number has too many digits to be read or written. -/
  | longNumeral (fault : LongNumeral)
  /-- The addresses of a line record are not counted. -/
  | range (fault : LengthFault)
  /-- An instruction has no instruction word. -/
  | instruction (fault : InstructionFault)
  /-- There is no token at an address. -/
  | missingToken
  /-- There is no word at an address. -/
  | missingWord
deriving DecidableEq

namespace AssemblyFault

/-- The located report of a fault in the user's files; other faults have none. -/
def report? : AssemblyFault → Option LocatedMessage
  | .unreadableSource filename fault =>
      some ⟨"Cannot read source file: " ++ fault.description, ⟨filename, 0⟩, ""⟩
  | .capacityExceeded capacity source =>
      some ⟨"Code exceeds capacity of " ++ toString capacity ++ " words", source, ""⟩
  | _ => none

/-- The text of a fault that has no located report, if it has one. -/
def message? : AssemblyFault → Option String
  | .nulInFileName => some "embedded null byte"
  | .range fault => some fault.message
  | .instruction fault => fault.message?
  | .missingToken => some "list index out of range"
  | .missingWord => some "list assignment index out of range"
  | _ => none

end AssemblyFault

end WordMachine
