/-!
# Hexadecimal digits

Numbers are written with a fixed number of hexadecimal digits in lower case, bytes
with two of them.
-/

namespace WordMachine

namespace Text

/-- The hexadecimal digit for a value below sixteen. -/
def hexDigit (value : Nat) : Char :=
  if value < 10 then Char.ofNat (48 + value) else Char.ofNat (87 + value)

/-- The last hexadecimal digits of a number, as many as the width says. -/
def hexDigits : (width : Nat) → (value : Nat) → List Char
  | 0, _ => []
  | width + 1, value => hexDigits width (value / 16) ++ [hexDigit (value % 16)]

/-- The two hexadecimal digits of a byte. -/
def hexByte (byte : Nat) : List Char :=
  hexDigits 2 byte

/-- The hexadecimal text of a sequence of bytes. -/
def hexBytes (bytes : List UInt8) : String :=
  String.ofList (bytes.flatMap (fun byte => hexByte byte.toNat))

end Text

end WordMachine
