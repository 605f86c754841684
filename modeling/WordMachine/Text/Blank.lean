/-!
# Blank characters

The characters that separate tokens and that make a line blank: the white
space of Unicode together with the four information separators
`U+001C` to `U+001F`.  Zero-width characters are not blank.
-/

namespace WordMachine

namespace Text

/-- Closed ranges of the code points of blank characters, ascending. -/
def blankRanges : List (Nat × Nat) :=
  [ (0x09, 0x0D), (0x1C, 0x20), (0x85, 0x85), (0xA0, 0xA0), (0x1680, 0x1680),
    (0x2000, 0x200A), (0x2028, 0x2029), (0x202F, 0x202F), (0x205F, 0x205F),
    (0x3000, 0x3000) ]

/-- Whether a character is blank. -/
def isBlank (character : Char) : Bool :=
  blankRanges.any (fun range => range.1 ≤ character.toNat && character.toNat ≤ range.2)

end Text

end WordMachine
