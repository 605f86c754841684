import WordMachine.Payload.Write
import WordMachine.Text.Quoted

/-!
# Reading a payload

Reading checks the header first, then takes the words, the labels and the
line records from left to right.  Bytes after the last record are ignored.
Labels are bound under their names as stored, so the last of equal names wins,
and line records are recorded in stored order.
-/

namespace WordMachine

/-- Why a payload cannot be read. -/
inductive PayloadFault where
  | tooShort
  | badMagic (found : List UInt8)
  | unsupportedVersion (version : Nat)
  | capacityTooLarge (capacity : Nat)
  | lengthBeyondCapacity (length capacity : Nat)
  | truncatedCode
  | truncatedSymbol (offset : Nat)
  | badName (fault : Text.Utf8.Fault)
deriving DecidableEq

/-- The text that reports a payload fault. -/
def PayloadFault.message : PayloadFault → String
  | .tooShort => "Data too short for executable header"
  | .badMagic found => "Invalid magic bytes: " ++ Text.Quoted.bytes found
  | .unsupportedVersion version => "Unsupported version: " ++ toString version
  | .capacityTooLarge capacity =>
      "Capacity " ++ toString capacity ++ " exceeds maximum " ++ toString maxCapacity
  | .lengthBeyondCapacity length capacity =>
      "Code length " ++ toString length ++ " exceeds capacity " ++ toString capacity
  | .truncatedCode => "Truncated code section"
  | .truncatedSymbol offset => "Truncated symbol at offset " ++ toString offset
  | .badName fault => fault.message

namespace Payload

/-- The fixed part of a payload. -/
structure Header where
  magic : List UInt8
  version : Nat
  entry : Nat
  length : Nat
  capacity : Nat
  labelCount : Nat
  lineCount : Nat
deriving DecidableEq

/-- The number stored in `width` bytes from `offset` on. -/
def numberAt (bytes : List UInt8) (offset width : Nat) : Nat :=
  ofLittleEndian ((bytes.drop offset).take width)

/-- The header at the start of a payload. -/
def Header.ofBytes (bytes : List UInt8) : Header where
  magic := bytes.take 4
  version := numberAt bytes 4 2
  entry := numberAt bytes 6 4
  length := numberAt bytes 10 4
  capacity := numberAt bytes 14 4
  labelCount := numberAt bytes 18 4
  lineCount := numberAt bytes 22 4

/-- Read and check the header. -/
def readHeader (bytes : List UInt8) : Except PayloadFault Header :=
  let header := Header.ofBytes bytes
  if bytes.length < headerSize then .error .tooShort
  else if header.magic ≠ Payload.magic then .error (.badMagic header.magic)
  else if Payload.version < header.version then .error (.unsupportedVersion header.version)
  else if maxCapacity < header.capacity then .error (.capacityTooLarge header.capacity)
  else if header.capacity < header.length then
    .error (.lengthBeyondCapacity header.length header.capacity)
  else .ok header

/-- The unread bytes of a payload and the number of bytes read before them. -/
structure Cursor where
  offset : Nat
  rest : List UInt8

namespace Cursor

/-- Take `count` bytes, if there are as many. -/
def take? (cursor : Cursor) (count : Nat) : Option (List UInt8 × Cursor) :=
  let taken := cursor.rest.take count
  if taken.length = count then
    some (taken, ⟨cursor.offset + count, cursor.rest.drop count⟩)
  else
    none

/-- Take `count` bytes of a label or of a line record. -/
def takeBytes (cursor : Cursor) (count : Nat) : Except PayloadFault (List UInt8 × Cursor) :=
  match cursor.take? count with
  | some taken => .ok taken
  | none => .error (.truncatedSymbol cursor.offset)

/-- Take a name. -/
def takeName (cursor : Cursor) : Except PayloadFault (String × Cursor) := do
  let (size, cursor) ← cursor.takeBytes 2
  let (name, cursor) ← cursor.takeBytes (ofLittleEndian size)
  match Text.Utf8.decode name with
  | .ok characters => .ok (String.ofList characters, cursor)
  | .error fault => .error (.badName fault)

/-- Take a label: its name and its address. -/
def takeLabel (cursor : Cursor) : Except PayloadFault ((String × Int) × Cursor) := do
  let (name, cursor) ← cursor.takeName
  let (address, cursor) ← cursor.takeBytes 4
  return ((name, wordOfBytes address), cursor)

/-- Take a line record: its file name, line number, start and stop. -/
def takeLineRecord (cursor : Cursor) : Except PayloadFault (LineRecord × Cursor) := do
  let (filename, cursor) ← cursor.takeName
  let (numbers, cursor) ← cursor.takeBytes 12
  let number := wordOfBytes (numbers.take 4)
  let start := wordOfBytes ((numbers.drop 4).take 4)
  let stop := wordOfBytes (numbers.drop 8)
  return (⟨⟨filename, number⟩, ⟨start, stop⟩⟩, cursor)

end Cursor

/-- Take `count` labels and bind them. -/
def readLabels (table : LabelTable) (cursor : Cursor) :
    (count : Nat) → Except PayloadFault (LabelTable × Cursor)
  | 0 => .ok (table, cursor)
  | count + 1 =>
      match cursor.takeLabel with
      | .error fault => .error fault
      | .ok (item, cursor) => readLabels (table.bind item.1 item.2) cursor count

/-- Take `count` line records, behind those found before. -/
def readLines (found : Array LineRecord) (cursor : Cursor) :
    (count : Nat) → Except PayloadFault (Array LineRecord × Cursor)
  | 0 => .ok (found, cursor)
  | count + 1 =>
      match cursor.takeLineRecord with
      | .error fault => .error fault
      | .ok (entry, cursor) => readLines (found.push entry) cursor count

/-- Take the words in use and fill them up with zeros to the capacity. -/
def readCode (header : Header) (cursor : Cursor) : Except PayloadFault (Array Int × Cursor) :=
  match cursor.take? (4 * header.length) with
  | none => .error .truncatedCode
  | some (bytes, cursor) =>
      .ok (wordsOfBytes bytes ++ Array.replicate (header.capacity - header.length) 0, cursor)

/-- The image that a payload stores. -/
def decode (bytes : List UInt8) : Except PayloadFault Image := do
  let header ← readHeader bytes
  let (code, cursor) ← readCode header ⟨headerSize, bytes.drop headerSize⟩
  let (labels, cursor) ← readLabels .empty cursor header.labelCount
  let (entries, _) ← readLines #[] cursor header.lineCount
  return {
    entry := header.entry
    length := header.length
    capacity := header.capacity
    code := code
    labels := labels
    lines := LineTable.empty.recordAll entries.toList
    warnings := #[] }

end Payload

end WordMachine
