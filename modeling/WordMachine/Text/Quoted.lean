import WordMachine.Text.Hex
import WordMachine.Text.Hidden

/-!
# Quoted text

Names and raw bytes are quoted when they appear inside a report.  The quote
is `'`, unless the text holds a `'` and no `"`.  A backslash stands before a
backslash and before the quote in use; line feed, carriage return and tab
have letters of their own, and other hidden characters are written as two, four
or eight hexadecimal digits.  Bytes beyond `7E` are written in that way too, while
other characters stand for themselves.
-/

namespace WordMachine

namespace Text

namespace Quoted

/-- The quote for a text that holds the given characters. -/
def quoteFor (characters : List Char) : Char :=
  if characters.contains '\x27' && !characters.contains '\x22' then '\x22' else '\x27'

/-- The hexadecimal form of a character that may not stand for itself. -/
def hexEscape (code : Nat) : List Char :=
  if code < 0x100 then '\\' :: 'x' :: hexDigits 2 code
  else if code < 0x10000 then '\\' :: 'u' :: hexDigits 4 code
  else '\\' :: 'U' :: hexDigits 8 code

/-- One character as it is written between quotes. -/
def escape (quote : Char) (character : Char) : List Char :=
  if character = '\\' ∨ character = quote then ['\\', character]
  else if character = '\n' then ['\\', 'n']
  else if character = '\r' then ['\\', 'r']
  else if character = '\t' then ['\\', 't']
  else if isHidden character then hexEscape character.toNat
  else [character]

/-- One byte as it is written between quotes. -/
def escapeByte (quote : Char) (byte : UInt8) : List Char :=
  if byte.toNat < 0x7F then escape quote (Char.ofNat byte.toNat)
  else hexEscape byte.toNat

/-- A text between quotes. -/
def text (content : String) : String :=
  let quote := quoteFor content.toList
  String.ofList (quote :: content.toList.flatMap (escape quote) ++ [quote])

/-- A sequence of bytes between quotes, marked with a leading `b`. -/
def bytes (content : List UInt8) : String :=
  let quote := quoteFor (content.map (fun byte => Char.ofNat byte.toNat))
  String.ofList ('b' :: quote :: content.flatMap (escapeByte quote) ++ [quote])

end Quoted

end Text

end WordMachine
