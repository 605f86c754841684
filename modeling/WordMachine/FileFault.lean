/-!
# File faults

The ways in which a file cannot be opened, with the number and the words by
which they are reported.
-/

namespace WordMachine

/-- Whether a name holds a NUL character, which no file name may hold. -/
def holdsNul (name : String) : Bool :=
  name.toList.contains '\x00'

/-- Why a file cannot be opened. -/
inductive FileFault where
  | noSuchFile
  | notADirectory
  | isADirectory
  | nameTooLong
  /-- The file has more bytes than an offset can count. -/
  | tooLarge
  /-- Any other fault, with the number and the words that the system gives. -/
  | other (number : Nat) (description : String)
deriving DecidableEq

namespace FileFault

/-- The number of a fault. -/
def number : FileFault → Nat
  | .noSuchFile => 2
  | .notADirectory => 20
  | .isADirectory => 21
  | .nameTooLong => 36
  | .tooLarge => 75
  | .other number _ => number

/-- The words that describe a fault. -/
def description : FileFault → String
  | .noSuchFile => "No such file or directory"
  | .notADirectory => "Not a directory"
  | .isADirectory => "Is a directory"
  | .nameTooLong => "File name too long"
  | .tooLarge => "Value too large for defined data type"
  | .other _ description => description

end FileFault

end WordMachine
