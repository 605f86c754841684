import WordMachine.Text.DecimalDigit

/-!
# Numerals

A numeral is an optional sign and a non-empty run of decimal digits.  A token
is read by its longest leading numeral; the reading is exact if nothing
follows it.  A token without a leading numeral reads as zero and is not exact.
Numbers of more than 4300 digits are neither read nor written.
-/

namespace WordMachine

/-- The value of the leading numeral of a token, and whether it is the whole token. -/
structure NumeralReading where
  value : Int
  exact : Bool
deriving DecidableEq

/-- A numeral has more digits than are read or written. -/
structure LongNumeral where
  digits : Nat
deriving DecidableEq

namespace Numeral

/-- The largest number of digits that is read or written. -/
def maxDigits : Nat := 4300

/-- Split off a sign: whether it is a minus, and the characters behind it. -/
def splitSign : List Char → Bool × List Char
  | '+' :: rest => (false, rest)
  | '-' :: rest => (true, rest)
  | characters => (false, characters)

/-- The value of a run of decimal digits. -/
def magnitude (digits : List Char) : Nat :=
  digits.foldl (fun value digit => 10 * value + (Text.digitValue? digit).getD 0) 0

/-- Read the leading numeral of a token. -/
def read (token : String) : Except LongNumeral NumeralReading :=
  let (negative, body) := splitSign token.toList
  let digits := body.takeWhile Text.isDigit
  if digits.isEmpty then
    .ok ⟨0, false⟩
  else if digits.length ≤ maxDigits then
    .ok ⟨if negative then -(magnitude digits) else magnitude digits,
      (body.dropWhile Text.isDigit).isEmpty⟩
  else
    .error ⟨digits.length⟩

/-! ## Writing -/

/-- The number of decimal digits of a number, its sign not counted. -/
def digitCount (value : Int) : Nat :=
  (Nat.toDigits 10 value.natAbs).length

/-- Refuse a number that has too many digits to be written. -/
def check (value : Int) : Except LongNumeral Unit :=
  if digitCount value ≤ maxDigits then .ok () else .error ⟨digitCount value⟩

/-- Refuse the first of several numbers that has too many digits. -/
def checkAll : List Int → Except LongNumeral Unit
  | [] => .ok ()
  | value :: rest => do
      check value
      checkAll rest

/-- The decimal text of a number. -/
def write (value : Int) : Except LongNumeral String := do
  check value
  return toString value

end Numeral

end WordMachine
