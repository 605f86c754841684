import WordMachine.LineTable

/-!
# Diagnostics

A diagnostic is a problem that does not stop assembly, with the source line
it is about.  An empty file name means that no line is known.  Errors that do
stop assembly are reported as located messages, which may also quote the text
of the line.
-/

namespace WordMachine

/-- The place of a problem that belongs to no source line. -/
def SourceLine.unknown : SourceLine := ⟨"", 0⟩

/-- A problem that does not stop assembly. -/
structure Diagnostic where
  message : String
  source : SourceLine
deriving DecidableEq

/-- The diagnostic as one line of text, for a line number that can be written. -/
def Diagnostic.render (diagnostic : Diagnostic) : String :=
  if diagnostic.source.filename = "" then
    diagnostic.message
  else
    diagnostic.source.filename ++ ":" ++ toString diagnostic.source.number ++ ": " ++
      diagnostic.message

/-- The problems that assembly warns about. -/
inductive Concern where
  /-- A marked reference names a label that has no address. -/
  | undefinedLabel (name : String)
  /-- A token that has to be a number is not exactly one. -/
  | invalidNumber (token : String)
  /-- The source ends before the operands of its last instruction. -/
  | missingOperands (mnemonic : String) (expected available : Int)
  /-- A label stands where a number is expected. -/
  | bareLabel (token : String)
  /-- The entry point lies behind the last word of code. -/
  | entryPastEnd (entry length : Int)
deriving DecidableEq

/-- The numbers that the text of a warning shows, from left to right. -/
def Concern.numbers : Concern → List Int
  | .missingOperands _ expected available => [expected, available]
  | .entryPastEnd entry length => [entry, length]
  | _ => []

/-- The text of a warning whose numbers can be written. -/
def Concern.message : Concern → String
  | .undefinedLabel name => "Undefined label: " ++ name
  | .invalidNumber token => "Invalid number or unknown instruction: " ++ token
  | .missingOperands mnemonic expected available =>
      mnemonic ++ " expects " ++ toString expected ++ " operands, got " ++ toString available
  | .bareLabel token =>
      "Bare label " ++ token ++ " emitted as a number, use &" ++ token ++ " for its address"
  | .entryPastEnd entry length =>
      "Entry point " ++ toString entry ++ " is past the end of the code (" ++
        toString length ++ ")"

/-- The report of an error: a message, its place, and the text of the line if it is quoted. -/
structure LocatedMessage where
  message : String
  source : SourceLine
  excerpt : String
deriving DecidableEq

/--
The message behind its place, as far as the place is known, for a line number that
can be written.
-/
def LocatedMessage.placed (report : LocatedMessage) : String :=
  if report.source.filename = "" then
    report.message
  else if report.source.number = 0 then
    report.source.filename ++ ": " ++ report.message
  else
    report.source.filename ++ ":" ++ toString report.source.number ++ ": " ++ report.message

/-- The report as text, with the quoted line on a line of its own. -/
def LocatedMessage.render (report : LocatedMessage) : String :=
  if report.excerpt = "" then report.placed else report.placed ++ "\n  " ++ report.excerpt

end WordMachine
