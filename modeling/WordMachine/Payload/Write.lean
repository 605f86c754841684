import WordMachine.Image
import WordMachine.Payload.Field

/-!
# Writing a payload

A payload is a header, the words in use, the labels in table order and the
line records in table order.  The header has the magic bytes, the format
version, entry, length and capacity of the image, and the numbers of labels
and records.  Warnings are not stored.
-/

namespace WordMachine

namespace Payload

/-- The bytes every payload starts with. -/
def magic : List UInt8 := [0x56, 0x4D, 0x45, 0x58]

/-- The version of the format. -/
def version : Nat := 1

/-- The number of bytes in a header. -/
def headerSize : Nat := 26

/-- The stored form of the header. -/
def header? (image : Image) : Option (List UInt8) := do
  let entry ← unsignedField? image.entry
  let length ← unsignedField? image.length
  let capacity ← unsignedField? image.capacity
  let labelCount ← unsignedField? image.labels.size
  let lineCount ← unsignedField? image.lines.size
  return magic ++ littleEndian 2 version ++ entry ++ length ++ capacity ++ labelCount ++ lineCount

/-- The stored form of the words in use, of which there have to be as many as the length says. -/
def code? (image : Image) : Option (List UInt8) :=
  if image.usedCode.length = image.length then
    (image.usedCode.mapM wordField?).map List.flatten
  else
    none

/-- The stored form of a label. -/
def label? (item : String × Int) : Option (List UInt8) := do
  let name ← nameField? item.1
  let address ← wordField? item.2
  return name ++ address

/-- The stored form of a line record. -/
def lineRecord? (entry : LineRecord) : Option (List UInt8) := do
  let filename ← nameField? entry.source.filename
  let number ← wordField? entry.source.number
  let start ← wordField? entry.range.start
  let stop ← wordField? entry.range.stop
  return filename ++ number ++ start ++ stop

/-- The payload of an image, if every value fits its field. -/
def encode? (image : Image) : Option (List UInt8) := do
  let header ← header? image
  let code ← code? image
  let labels ← image.labels.items.mapM label?
  let lines ← image.lines.records.mapM lineRecord?
  return header ++ code ++ labels.flatten ++ lines.flatten

end Payload

end WordMachine
