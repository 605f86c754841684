/-!
# Decimal digits

The decimal digits of Unicode 14 (general category Nd) come in runs of ten
consecutive code points, from the digit zero to the digit nine of one
script.  The table lists where each run starts.
-/

namespace WordMachine

namespace Text

/-- The code points of the digits zero, ascending. -/
def digitZeros : List Nat :=
  [ 0x30, 0x660, 0x6F0, 0x7C0, 0x966, 0x9E6, 0xA66, 0xAE6, 0xB66, 0xBE6, 0xC66, 0xCE6,
    0xD66, 0xDE6, 0xE50, 0xED0, 0xF20, 0x1040, 0x1090, 0x17E0, 0x1810, 0x1946, 0x19D0,
    0x1A80, 0x1A90, 0x1B50, 0x1BB0, 0x1C40, 0x1C50, 0xA620, 0xA8D0, 0xA900, 0xA9D0,
    0xA9F0, 0xAA50, 0xABF0, 0xFF10, 0x104A0, 0x10D30, 0x11066, 0x110F0, 0x11136,
    0x111D0, 0x112F0, 0x11450, 0x114D0, 0x11650, 0x116C0, 0x11730, 0x118E0, 0x11950,
    0x11C50, 0x11D50, 0x11DA0, 0x16A60, 0x16AC0, 0x16B50, 0x1D7CE, 0x1D7D8, 0x1D7E2,
    0x1D7EC, 0x1D7F6, 0x1E140, 0x1E2F0, 0x1E950, 0x1FBF0 ]

/-- The value of a decimal digit, if the character is one. -/
def digitValue? (character : Char) : Option Nat :=
  digitZeros.findSome? (fun start =>
    if start ≤ character.toNat ∧ character.toNat < start + 10 then
      some (character.toNat - start)
    else
      none)

/-- Whether a character is a decimal digit. -/
def isDigit (character : Char) : Bool :=
  (digitValue? character).isSome

/-- The digits of the core library are decimal digits with their usual value. -/
theorem digitValue?_of_isDigit
    {character : Char} (ascii : character.isDigit = true) :
    digitValue? character = some (character.toNat - 48) := by
  have bounds : 48 ≤ character.toNat ∧ character.toNat < 58 := by
    simp only [Char.isDigit, Bool.and_eq_true, decide_eq_true_eq, ge_iff_le,
      UInt32.le_iff_toNat_le] at ascii
    have low : 48 ≤ character.val.toNat := ascii.1
    have high : character.val.toNat ≤ 57 := ascii.2
    exact ⟨low, Nat.lt_succ_of_le high⟩
  simp [digitValue?, digitZeros, bounds]

end Text

end WordMachine
