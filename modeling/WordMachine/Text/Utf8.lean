import WordMachine.Text.Hex

/-!
# UTF-8

A character is encoded in one to four bytes.  The first byte of a longer
sequence decides how many continuation bytes are due and in which range the
next one lies; this excludes overlong forms, surrogates and code points
beyond `10FFFF`.  The decoder reads from left to right and stops at the first
byte that rules the text out, with the bytes of the sequence it was reading.
-/

namespace WordMachine

namespace Text

namespace Utf8

/-- The bytes of one character. -/
def encodeChar (character : Char) : List UInt8 :=
  let code := character.toNat
  if code < 0x80 then
    [UInt8.ofNat code]
  else if code < 0x800 then
    [UInt8.ofNat (0xC0 + code / 0x40), UInt8.ofNat (0x80 + code % 0x40)]
  else if code < 0x10000 then
    [UInt8.ofNat (0xE0 + code / 0x1000), UInt8.ofNat (0x80 + code / 0x40 % 0x40),
      UInt8.ofNat (0x80 + code % 0x40)]
  else
    [UInt8.ofNat (0xF0 + code / 0x40000), UInt8.ofNat (0x80 + code / 0x1000 % 0x40),
      UInt8.ofNat (0x80 + code / 0x40 % 0x40), UInt8.ofNat (0x80 + code % 0x40)]

/-- The bytes of a text. -/
def encode (text : String) : List UInt8 :=
  text.toList.flatMap encodeChar

/-- Why a sequence of bytes is not a text. -/
inductive Reason where
  | invalidStart
  | invalidContinuation
  | unexpectedEnd
deriving DecidableEq

/-- Where decoding stopped: the position and the bytes of the faulty sequence. -/
structure Fault where
  position : Nat
  bytes : List UInt8
  reason : Reason
deriving DecidableEq

/-- A closed range of byte values. -/
structure ByteRange where
  low : Nat
  high : Nat
deriving DecidableEq

/-- Whether a byte lies in a range. -/
def ByteRange.contains (range : ByteRange) (byte : UInt8) : Bool :=
  range.low ≤ byte.toNat && byte.toNat ≤ range.high

/-- The range of a continuation byte without further restriction. -/
def continuation : ByteRange := ⟨0x80, 0xBF⟩

/-- What a first byte announces: its payload bits and the ranges of the bytes that follow. -/
structure Lead where
  bits : Nat
  next : ByteRange
  later : List ByteRange
deriving DecidableEq

/-- The announcement of a byte beyond ASCII, if it may start a sequence. -/
def lead? (byte : UInt8) : Option Lead :=
  let value := byte.toNat
  if value < 0xC2 then none
  else if value < 0xE0 then some ⟨value - 0xC0, continuation, []⟩
  else if value = 0xE0 then some ⟨0, ⟨0xA0, 0xBF⟩, [continuation]⟩
  else if value = 0xED then some ⟨0xD, ⟨0x80, 0x9F⟩, [continuation]⟩
  else if value < 0xF0 then some ⟨value - 0xE0, continuation, [continuation]⟩
  else if value = 0xF0 then some ⟨0, ⟨0x90, 0xBF⟩, [continuation, continuation]⟩
  else if value < 0xF4 then some ⟨value - 0xF0, continuation, [continuation, continuation]⟩
  else if value = 0xF4 then some ⟨4, ⟨0x80, 0x8F⟩, [continuation, continuation]⟩
  else none

/-- A sequence that has begun and waits for at least one more byte. -/
structure Pending where
  start : Nat
  taken : List UInt8
  bits : Nat
  next : ByteRange
  later : List ByteRange
deriving DecidableEq

/--
Decode the bytes from `position` on.  `pending` is the sequence that has
begun, if any, and `read` holds the characters read so far, the latest first.
-/
def decodeFrom (position : Nat) (pending : Option Pending) (read : List Char) :
    List UInt8 → Except Fault (List Char)
  | [] =>
      match pending with
      | none => .ok read.reverse
      | some sequence => .error ⟨sequence.start, sequence.taken, .unexpectedEnd⟩
  | byte :: rest =>
      match pending with
      | none =>
          if byte.toNat < 0x80 then
            decodeFrom (position + 1) none (Char.ofNat byte.toNat :: read) rest
          else
            match lead? byte with
            | none => .error ⟨position, [byte], .invalidStart⟩
            | some lead =>
                decodeFrom (position + 1)
                  (some ⟨position, [byte], lead.bits, lead.next, lead.later⟩) read rest
      | some sequence =>
          if sequence.next.contains byte then
            let bits := sequence.bits * 0x40 + byte.toNat % 0x40
            match sequence.later with
            | [] => decodeFrom (position + 1) none (Char.ofNat bits :: read) rest
            | next :: later =>
                decodeFrom (position + 1)
                  (some ⟨sequence.start, sequence.taken ++ [byte], bits, next, later⟩) read rest
          else
            .error ⟨sequence.start, sequence.taken, .invalidContinuation⟩

/-- The characters that a sequence of bytes encodes. -/
def decode (bytes : List UInt8) : Except Fault (List Char) :=
  decodeFrom 0 none [] bytes

/-- The text that names a reason. -/
def Reason.message : Reason → String
  | .invalidStart => "invalid start byte"
  | .invalidContinuation => "invalid continuation byte"
  | .unexpectedEnd => "unexpected end of data"

/-- The text that reports a fault: one byte is shown by its value, several by their positions. -/
def Fault.message (fault : Fault) : String :=
  match fault.bytes with
  | [byte] =>
      "'utf-8' codec can't decode byte 0x" ++ String.ofList (hexByte byte.toNat) ++
        " in position " ++ toString fault.position ++ ": " ++ fault.reason.message
  | bytes =>
      "'utf-8' codec can't decode bytes in position " ++ toString fault.position ++ "-" ++
        toString (fault.position + bytes.length - 1) ++ ": " ++ fault.reason.message

/-! ## Streams -/

/-- The number of bytes that are taken from a stream at a time. -/
def blockSize : Nat := 8192

/-- The position of the byte that rules a text out; for a text that ends too early, its end. -/
def Fault.discovery (fault : Fault) : Nat :=
  match fault.reason with
  | .invalidStart => fault.position
  | _ => fault.position + fault.bytes.length

/--
The position from which the block around a position is decoded.  A character that
the block before it left incomplete is decoded together with the block.
-/
def blockOrigin (bytes : List UInt8) (position : Nat) : Nat :=
  let start := position / blockSize * blockSize
  match decode (bytes.take start) with
  | .ok _ => start
  | .error incomplete => incomplete.position

/--
The fault as a reader of the bytes sees it who takes them block by block: positions
count from where the decoding of the block starts.  The end of a stream is found
when nothing is left to take, so what it cuts off is decoded by itself.
-/
def Fault.inStream (bytes : List UInt8) (fault : Fault) : Fault :=
  let origin :=
    match fault.reason with
    | .unexpectedEnd => fault.position
    | _ => blockOrigin bytes fault.discovery
  { fault with position := fault.position - origin }

end Utf8

end Text

end WordMachine
