import WordMachine.Text.Utf8
import WordMachine.Word

/-!
# Fields of a payload

Numbers are stored with their least significant byte first.  A name is stored
as the number of its bytes in two bytes, followed by its UTF-8 form.  A value
that does not fit its field has no stored form.
-/

namespace WordMachine

namespace Payload

/-- The lowest `width` bytes of a number, least significant first. -/
def littleEndian : (width : Nat) → (number : Nat) → List UInt8
  | 0, _ => []
  | width + 1, number => UInt8.ofNat (number % 256) :: littleEndian width (number / 256)

/-- The number with the given bytes, least significant first. -/
def ofLittleEndian : List UInt8 → Nat
  | [] => 0
  | byte :: rest => byte.toNat + 256 * ofLittleEndian rest

@[simp]
theorem length_littleEndian (width number : Nat) : (littleEndian width number).length = width := by
  induction width generalizing number with
  | zero => rfl
  | succ width tailHolds => simp [littleEndian, tailHolds]

theorem ofLittleEndian_littleEndian_two {number : Nat} (small : number < 65536) :
    ofLittleEndian (littleEndian 2 number) = number := by
  simp only [littleEndian, ofLittleEndian, UInt8.toNat_ofNat']
  omega

theorem ofLittleEndian_littleEndian_four {number : Nat} (small : number < Word.modulus) :
    ofLittleEndian (littleEndian 4 number) = number := by
  simp only [Word.modulus] at small
  simp only [littleEndian, ofLittleEndian, UInt8.toNat_ofNat']
  omega

/-- The stored form of an unsigned 32-bit number. -/
def unsignedField? (number : Int) : Option (List UInt8) :=
  if 0 ≤ number ∧ number < Word.modulus then some (littleEndian 4 number.toNat) else none

/-- The stored form of a signed word. -/
def wordField? (number : Int) : Option (List UInt8) :=
  if Word.Fits number then some (littleEndian 4 (Word.lowBits number)) else none

/-- The stored form of a name. -/
def nameField? (name : String) : Option (List UInt8) :=
  let bytes := Text.Utf8.encode name
  if bytes.length ≤ 65535 then some (littleEndian 2 bytes.length ++ bytes) else none

/-- The signed word with the given bytes. -/
def wordOfBytes (bytes : List UInt8) : Int :=
  Word.wrap (ofLittleEndian bytes)

/-- The words stored in groups of four bytes, behind those found before. -/
def wordsFrom (found : Array Int) : List UInt8 → Array Int
  | first :: second :: third :: fourth :: rest =>
      wordsFrom (found.push (wordOfBytes [first, second, third, fourth])) rest
  | _ => found

/-- The words stored in groups of four bytes. -/
def wordsOfBytes (bytes : List UInt8) : Array Int :=
  wordsFrom #[] bytes

end Payload

end WordMachine
