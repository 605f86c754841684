import WordMachine.Text.Utf8

/-!
# Decoding is the inverse of encoding

A byte sequence is decoded to the characters whose encoding it is, and every
other byte sequence is refused (`decode_eq_ok_iff`).  What the encoding of a
text is, is settled by the standard library (`encode_eq_toByteArray`).

The state machine is followed over one character at a time.  Three families of
first bytes start a longer sequence, and in each of them the range of the second
byte excludes exactly the code points of shorter forms, the surrogates and
those beyond `10FFFF`.
-/

namespace WordMachine

namespace Text

namespace Utf8

theorem encodeChar_eq_utf8EncodeChar (character : Char) :
    encodeChar character = String.utf8EncodeChar character := by
  have valid := character.valid
  simp only [UInt32.isValidChar, Nat.isValidChar] at valid
  have toNat : character.toNat = character.val.toNat := rfl
  simp only [encodeChar, String.utf8EncodeChar, toNat]
  generalize character.val.toNat = code at *
  have one : code < 0x80 ↔ code ≤ 0x7F := Nat.lt_succ_iff
  have two : code < 0x800 ↔ code ≤ 0x7FF := Nat.lt_succ_iff
  have three : code < 0x10000 ↔ code ≤ 0xFFFF := Nat.lt_succ_iff
  simp only [one, two, three, Nat.add_comm]
  split
  · rfl
  · split
    · rw [Nat.mod_eq_of_lt (show code / 64 < 32 by omega)]
    · split
      · rw [Nat.mod_eq_of_lt (show code / 4096 < 16 by omega)]
      · rw [Nat.mod_eq_of_lt (show code / 262144 < 8 by omega)]

/-- The encoding of a text is its UTF-8 form in the standard library. -/
theorem encode_eq_toByteArray (text : String) :
    encode text = text.toByteArray.data.toList := by
  rw [← String.utf8Encode_toList, List.utf8Encode, encode]
  simp [funext encodeChar_eq_utf8EncodeChar]

/-! ## First bytes -/

/--
The range of a second byte, for a first byte with the given payload bits: the
first byte without payload raises it, and the one with payload `limit` lowers it.
-/
def secondByte (low limit high bits : Nat) : ByteRange :=
  if bits = 0 then ⟨low, 0xBF⟩ else if bits = limit then ⟨0x80, high⟩ else continuation

/-- The second byte of three, which excludes shorter forms and surrogates. -/
def secondOfThree (bits : Nat) : ByteRange :=
  secondByte 0xA0 0xD 0x9F bits

/-- The second byte of four, which excludes shorter forms and what lies beyond `10FFFF`. -/
def secondOfFour (bits : Nat) : ByteRange :=
  secondByte 0x90 4 0x8F bits

theorem lead?_two {bits : Nat} (large : 2 ≤ bits) (small : bits < 32) :
    lead? (UInt8.ofNat (0xC0 + bits)) = some ⟨bits, continuation, []⟩ := by
  have all : ∀ bits < 32, 2 ≤ bits →
      lead? (UInt8.ofNat (0xC0 + bits)) = some ⟨bits, continuation, []⟩ := by
    decide
  exact all bits small large

theorem lead?_three {bits : Nat} (small : bits < 16) :
    lead? (UInt8.ofNat (0xE0 + bits)) = some ⟨bits, secondOfThree bits, [continuation]⟩ := by
  have all : ∀ bits < 16,
      lead? (UInt8.ofNat (0xE0 + bits)) = some ⟨bits, secondOfThree bits, [continuation]⟩ := by
    decide
  exact all bits small

theorem lead?_four {bits : Nat} (small : bits < 5) :
    lead? (UInt8.ofNat (0xF0 + bits)) =
      some ⟨bits, secondOfFour bits, [continuation, continuation]⟩ := by
  have all : ∀ bits < 5,
      lead? (UInt8.ofNat (0xF0 + bits)) =
        some ⟨bits, secondOfFour bits, [continuation, continuation]⟩ := by
    decide
  exact all bits small

/-- The first bytes of longer sequences, by the number of bytes that follow. -/
theorem bits_of_lead? {byte : UInt8} {lead : Lead} (found : lead? byte = some lead) :
    (∃ bits, 2 ≤ bits ∧ bits < 32 ∧ byte = UInt8.ofNat (0xC0 + bits)) ∨
      (∃ bits, bits < 16 ∧ byte = UInt8.ofNat (0xE0 + bits)) ∨
        ∃ bits, bits < 5 ∧ byte = UInt8.ofNat (0xF0 + bits) := by
  have large : 0xC2 ≤ byte.toNat := by
    apply Nat.le_of_not_lt
    intro small
    simp [lead?, small] at found
  have small : byte.toNat < 0xF5 := by
    apply Nat.lt_of_not_le
    intro large
    simp only [lead?] at found
    repeat rw [if_neg (by omega)] at found
    cases found
  have same : byte = UInt8.ofNat byte.toNat := UInt8.ofNat_toNat.symm
  by_cases two : byte.toNat < 0xE0
  · exact .inl ⟨byte.toNat - 0xC0, by omega, by omega, by
      rw [Nat.add_sub_cancel' (by omega)]
      exact same⟩
  · by_cases three : byte.toNat < 0xF0
    · exact .inr (.inl ⟨byte.toNat - 0xE0, by omega, by
        rw [Nat.add_sub_cancel' (by omega)]
        exact same⟩)
    · exact .inr (.inr ⟨byte.toNat - 0xF0, by omega, by
        rw [Nat.add_sub_cancel' (by omega)]
        exact same⟩)

/-! ## Sequences -/

/-- The bytes lie in the ranges, one in each. -/
def Matches : List ByteRange → List UInt8 → Prop
  | [], [] => True
  | range :: ranges, byte :: bytes => range.contains byte = true ∧ Matches ranges bytes
  | _, _ => False

/-- The code point with payload bits in front and bytes behind. -/
def codePoint (bits : Nat) (bytes : List UInt8) : Nat :=
  bytes.foldl (fun bits byte => bits * 0x40 + byte.toNat % 0x40) bits

theorem contains_iff (range : ByteRange) (byte : UInt8) :
    range.contains byte = true ↔ range.low ≤ byte.toNat ∧ byte.toNat ≤ range.high := by
  simp [ByteRange.contains]

theorem contains_continuation_iff (byte : UInt8) :
    continuation.contains byte = true ↔ 0x80 ≤ byte.toNat ∧ byte.toNat ≤ 0xBF :=
  contains_iff continuation byte

theorem contains_secondByte_iff
    {low limit high : Nat} (lowInside : 0x80 ≤ low) (highInside : high ≤ 0xBF)
    (limited : limit ≠ 0) (bits : Nat) (byte : UInt8) :
    (secondByte low limit high bits).contains byte = true ↔
      continuation.contains byte = true ∧ (bits = 0 → low ≤ byte.toNat) ∧
        (bits = limit → byte.toNat ≤ high) := by
  rw [contains_continuation_iff, secondByte, contains_iff]
  by_cases zero : bits = 0
  · subst zero
    simp [limited.symm]
    omega
  · by_cases atLimit : bits = limit
    · simp [atLimit, limited]
      omega
    · simp [zero, atLimit, continuation]

theorem ofNat_payload {byte : UInt8} (inside : continuation.contains byte = true) :
    UInt8.ofNat (0x80 + byte.toNat % 0x40) = byte := by
  rw [contains_continuation_iff] at inside
  have payload : 0x80 + byte.toNat % 0x40 = byte.toNat := by omega
  rw [payload, UInt8.ofNat_toNat]

theorem toNat_ofNat_payload {payload : Nat} (small : payload < 0x40) :
    (UInt8.ofNat (0x80 + payload)).toNat = 0x80 + payload := by
  rw [UInt8.toNat_ofNat']
  omega

theorem toNat_ofNat {code : Nat} (valid : code.isValidChar) :
    (Char.ofNat code).toNat = code := by
  rw [Char.ofNat, dif_pos valid]
  rfl

theorem encodeChar_two
    {bits : Nat} {second : UInt8} (large : 2 ≤ bits) (small : bits < 32)
    (inside : continuation.contains second = true) :
    encodeChar (Char.ofNat (codePoint bits [second])) =
      [UInt8.ofNat (0xC0 + bits), second] := by
  have sum : codePoint bits [second] = bits * 0x40 + second.toNat % 0x40 := rfl
  generalize codePoint bits [second] = code at *
  have toNat : (Char.ofNat code).toNat = code := by
    apply toNat_ofNat
    simp only [Nat.isValidChar]
    omega
  have first : code / 0x40 = bits := by omega
  have last : code % 0x40 = second.toNat % 0x40 := by omega
  rw [encodeChar, toNat, if_neg (by omega), if_pos (by omega), first, last, ofNat_payload inside]

theorem encodeChar_three
    {bits : Nat} {second third : UInt8} (small : bits < 16)
    (secondInside : (secondOfThree bits).contains second = true)
    (thirdInside : continuation.contains third = true) :
    encodeChar (Char.ofNat (codePoint bits [second, third])) =
      [UInt8.ofNat (0xE0 + bits), second, third] := by
  rcases (contains_secondByte_iff (by decide) (by decide) (by decide) bits second).mp
    secondInside with ⟨inside, notShorter, notSurrogate⟩
  have bounds := (contains_continuation_iff second).mp inside
  have sum : codePoint bits [second, third] =
      bits * 0x1000 + second.toNat % 0x40 * 0x40 + third.toNat % 0x40 := by
    simp only [codePoint, List.foldl_cons, List.foldl_nil]
    omega
  generalize codePoint bits [second, third] = code at *
  have toNat : (Char.ofNat code).toNat = code := by
    apply toNat_ofNat
    simp only [Nat.isValidChar]
    omega
  have first : code / 0x1000 = bits := by omega
  have middle : code / 0x40 % 0x40 = second.toNat % 0x40 := by omega
  have last : code % 0x40 = third.toNat % 0x40 := by omega
  rw [encodeChar, toNat, if_neg (by omega), if_neg (by omega), if_pos (by omega), first, middle,
    last, ofNat_payload inside, ofNat_payload thirdInside]

theorem encodeChar_four
    {bits : Nat} {second third fourth : UInt8} (small : bits < 5)
    (secondInside : (secondOfFour bits).contains second = true)
    (thirdInside : continuation.contains third = true)
    (fourthInside : continuation.contains fourth = true) :
    encodeChar (Char.ofNat (codePoint bits [second, third, fourth])) =
      [UInt8.ofNat (0xF0 + bits), second, third, fourth] := by
  rcases (contains_secondByte_iff (by decide) (by decide) (by decide) bits second).mp
    secondInside with ⟨inside, notShorter, notBeyond⟩
  have bounds := (contains_continuation_iff second).mp inside
  have sum : codePoint bits [second, third, fourth] =
      bits * 0x40000 + second.toNat % 0x40 * 0x1000 + third.toNat % 0x40 * 0x40 +
        fourth.toNat % 0x40 := by
    simp only [codePoint, List.foldl_cons, List.foldl_nil]
    omega
  generalize codePoint bits [second, third, fourth] = code at *
  have toNat : (Char.ofNat code).toNat = code := by
    apply toNat_ofNat
    simp only [Nat.isValidChar]
    omega
  have first : code / 0x40000 = bits := by omega
  have upper : code / 0x1000 % 0x40 = second.toNat % 0x40 := by omega
  have middle : code / 0x40 % 0x40 = third.toNat % 0x40 := by omega
  have last : code % 0x40 = fourth.toNat % 0x40 := by omega
  rw [encodeChar, toNat, if_neg (by omega), if_neg (by omega), if_neg (by omega), first, upper,
    middle, last, ofNat_payload inside, ofNat_payload thirdInside, ofNat_payload fourthInside]

/-- A sequence is the encoding of the character with its code point. -/
theorem encodeChar_codePoint
    {byte : UInt8} {lead : Lead} {tail : List UInt8}
    (found : lead? byte = some lead) (matching : Matches (lead.next :: lead.later) tail) :
    encodeChar (Char.ofNat (codePoint lead.bits tail)) = byte :: tail := by
  rcases bits_of_lead? found with ⟨bits, large, small, rfl⟩ | ⟨bits, small, rfl⟩ |
    ⟨bits, small, rfl⟩
  · rw [lead?_two large small] at found
    cases found
    match tail, matching with
    | [second], ⟨inside, _⟩ => exact encodeChar_two large small inside
  · rw [lead?_three small] at found
    cases found
    match tail, matching with
    | [second, third], ⟨secondInside, thirdInside, _⟩ =>
        exact encodeChar_three small secondInside thirdInside
  · rw [lead?_four small] at found
    cases found
    match tail, matching with
    | [second, third, fourth], ⟨secondInside, thirdInside, fourthInside, _⟩ =>
        exact encodeChar_four small secondInside thirdInside fourthInside

/-- The encoding of a character beyond ASCII is a sequence with its code point. -/
theorem exists_lead_encodeChar {character : Char} (beyond : 0x80 ≤ character.toNat) :
    ∃ byte lead tail,
      encodeChar character = byte :: tail ∧ lead? byte = some lead ∧
        Matches (lead.next :: lead.later) tail ∧
          codePoint lead.bits tail = character.toNat := by
  have valid : character.toNat.isValidChar := character.valid
  simp only [Nat.isValidChar] at valid
  simp only [encodeChar]
  generalize character.toNat = code at *
  have inContinuation : ∀ {payload : Nat}, payload < 0x40 →
      continuation.contains (UInt8.ofNat (0x80 + payload)) = true := by
    intro payload small
    rw [contains_continuation_iff, toNat_ofNat_payload small]
    omega
  have payloadOf : ∀ {payload : Nat}, payload < 0x40 →
      (UInt8.ofNat (0x80 + payload)).toNat % 0x40 = payload := by
    intro payload small
    rw [toNat_ofNat_payload small]
    omega
  have lastSmall : code % 0x40 < 0x40 := Nat.mod_lt _ (by decide)
  have middleSmall : code / 0x40 % 0x40 < 0x40 := Nat.mod_lt _ (by decide)
  have upperSmall : code / 0x1000 % 0x40 < 0x40 := Nat.mod_lt _ (by decide)
  rw [if_neg (Nat.not_lt.mpr beyond)]
  by_cases two : code < 0x800
  · rw [if_pos two]
    refine ⟨_, _, _, rfl, lead?_two (by omega) (by omega), ⟨inContinuation lastSmall, trivial⟩, ?_⟩
    simp only [codePoint, List.foldl_cons, List.foldl_nil, payloadOf lastSmall]
    omega
  · rw [if_neg two]
    by_cases three : code < 0x10000
    · rw [if_pos three]
      refine ⟨_, _, _, rfl, lead?_three (by omega),
        ⟨?_, inContinuation lastSmall, trivial⟩, ?_⟩
      · apply (contains_secondByte_iff (by decide) (by decide) (by decide) _ _).mpr
        rw [toNat_ofNat_payload middleSmall]
        exact ⟨inContinuation middleSmall, by omega, by omega⟩
      · simp only [codePoint, List.foldl_cons, List.foldl_nil, payloadOf lastSmall,
          payloadOf middleSmall]
        omega
    · rw [if_neg three]
      refine ⟨_, _, _, rfl, lead?_four (by omega),
        ⟨?_, inContinuation middleSmall, inContinuation lastSmall, trivial⟩, ?_⟩
      · apply (contains_secondByte_iff (by decide) (by decide) (by decide) _ _).mpr
        rw [toNat_ofNat_payload upperSmall]
        exact ⟨inContinuation upperSmall, by omega, by omega⟩
      · simp only [codePoint, List.foldl_cons, List.foldl_nil, payloadOf lastSmall,
          payloadOf middleSmall, payloadOf upperSmall]
        omega

theorem encodeChar_ascii {byte : UInt8} (ascii : byte.toNat < 0x80) :
    encodeChar (Char.ofNat byte.toNat) = [byte] := by
  have toNat : (Char.ofNat byte.toNat).toNat = byte.toNat := by
    apply toNat_ofNat
    simp only [Nat.isValidChar]
    omega
  rw [encodeChar, toNat, if_pos ascii, UInt8.ofNat_toNat]

theorem length_encodeChar_pos (character : Char) : 0 < (encodeChar character).length := by
  simp only [encodeChar]
  split
  · simp
  · split
    · simp
    · split
      · simp
      · simp

/-! ## Decoding -/

/-- A sequence that has begun is read to its end exactly when its bytes match. -/
theorem decodeFrom_pending_eq_ok_iff
    {position start : Nat} {taken : List UInt8} {bits : Nat} {next : ByteRange}
    {later : List ByteRange} {read : List Char} {bytes : List UInt8} {characters : List Char} :
    decodeFrom position (some ⟨start, taken, bits, next, later⟩) read bytes = .ok characters ↔
      ∃ tail rest,
        bytes = tail ++ rest ∧ Matches (next :: later) tail ∧
          decodeFrom (position + tail.length) none (Char.ofNat (codePoint bits tail) :: read)
            rest = .ok characters := by
  constructor
  · intro decoded
    induction later generalizing position taken bits next bytes with
    | nil =>
        cases bytes with
        | nil => cases decoded
        | cons byte rest =>
            simp only [decodeFrom] at decoded
            split at decoded
            case isTrue inside => exact ⟨[byte], rest, rfl, ⟨inside, trivial⟩, decoded⟩
            case isFalse => cases decoded
    | cons following later laterHolds =>
        cases bytes with
        | nil => cases decoded
        | cons byte rest =>
            simp only [decodeFrom] at decoded
            split at decoded
            case isTrue inside =>
              rcases laterHolds decoded with ⟨tail, unread, rfl, matching, finished⟩
              refine ⟨byte :: tail, unread, rfl, ⟨inside, matching⟩, ?_⟩
              rw [List.length_cons, Nat.add_comm tail.length 1, ← Nat.add_assoc]
              exact finished
            case isFalse => cases decoded
  · rintro ⟨tail, rest, rfl, matching, finished⟩
    induction later generalizing position taken bits next tail with
    | nil =>
        match tail, matching with
        | [byte], ⟨inside, _⟩ =>
            simp only [List.cons_append, List.nil_append, decodeFrom, inside, if_true]
            exact finished
    | cons following later laterHolds =>
        match tail, matching with
        | byte :: tail, ⟨inside, matching⟩ =>
            simp only [List.cons_append, decodeFrom, inside, if_true]
            apply laterHolds tail matching
            rw [Nat.add_assoc, Nat.add_comm 1 tail.length]
            exact finished

/-- Between characters, the next bytes are those of a character. -/
theorem exists_character_of_decodeFrom
    {position : Nat} {read : List Char} {byte : UInt8} {bytes : List UInt8}
    {characters : List Char}
    (decoded : decodeFrom position none read (byte :: bytes) = .ok characters) :
    ∃ character rest,
      byte :: bytes = encodeChar character ++ rest ∧
        decodeFrom (position + (encodeChar character).length) none (character :: read)
          rest = .ok characters := by
  simp only [decodeFrom] at decoded
  split at decoded
  case isTrue ascii =>
    have encoded := encodeChar_ascii ascii
    refine ⟨Char.ofNat byte.toNat, bytes, ?_, ?_⟩
    · rw [encoded]
      rfl
    · rw [encoded]
      exact decoded
  case isFalse beyond =>
    split at decoded
    · cases decoded
    case h_2 lead found =>
      rcases decodeFrom_pending_eq_ok_iff.mp decoded with ⟨tail, rest, rfl, matching, finished⟩
      have encoded := encodeChar_codePoint found matching
      refine ⟨Char.ofNat (codePoint lead.bits tail), rest, ?_, ?_⟩
      · rw [encoded]
        rfl
      · rw [encoded, List.length_cons, Nat.add_comm tail.length 1, ← Nat.add_assoc]
        exact finished

/-- The bytes of a character are read in one go. -/
theorem decodeFrom_encodeChar_append
    {position : Nat} {read : List Char} {character : Char} {rest : List UInt8}
    {characters : List Char}
    (decoded : decodeFrom (position + (encodeChar character).length) none (character :: read)
      rest = .ok characters) :
    decodeFrom position none read (encodeChar character ++ rest) = .ok characters := by
  by_cases ascii : character.toNat < 0x80
  · have encoded : encodeChar character = [UInt8.ofNat character.toNat] := by
      rw [encodeChar, if_pos ascii]
    have toNat : (UInt8.ofNat character.toNat).toNat = character.toNat := by
      rw [UInt8.toNat_ofNat']
      omega
    rw [encoded] at decoded ⊢
    simp only [List.cons_append, List.nil_append, decodeFrom, toNat, if_pos ascii,
      Char.ofNat_toNat]
    exact decoded
  · rcases exists_lead_encodeChar (Nat.le_of_not_lt ascii) with
      ⟨byte, lead, tail, encoded, found, matching, code⟩
    have beyond : ¬ byte.toNat < 0x80 := by
      intro small
      have none : lead? byte = none := if_pos (Nat.lt_trans small (by decide))
      rw [none] at found
      cases found
    rw [encoded] at decoded ⊢
    simp only [List.cons_append, decodeFrom, if_neg beyond, found]
    apply decodeFrom_pending_eq_ok_iff.mpr
    refine ⟨tail, rest, rfl, matching, ?_⟩
    rw [code, Char.ofNat_toNat, Nat.add_assoc, Nat.add_comm 1 tail.length]
    exact decoded

theorem exists_characters_of_decodeFrom
    {size position : Nat} {read : List Char} {bytes : List UInt8} {characters : List Char}
    (bounded : bytes.length ≤ size)
    (decoded : decodeFrom position none read bytes = .ok characters) :
    ∃ added, bytes = added.flatMap encodeChar ∧ characters = read.reverse ++ added := by
  -- A character takes at least one byte, so the bytes behind it are fewer.
  induction size generalizing position read bytes with
  | zero =>
      cases List.length_eq_zero_iff.mp (Nat.le_zero.mp bounded)
      cases decoded
      exact ⟨[], rfl, (List.append_nil _).symm⟩
  | succ size shorter =>
      cases bytes with
      | nil =>
          cases decoded
          exact ⟨[], rfl, (List.append_nil _).symm⟩
      | cons byte bytes =>
          rcases exists_character_of_decodeFrom decoded with ⟨character, rest, same, finished⟩
          rw [same] at bounded ⊢
          have positive := length_encodeChar_pos character
          rw [List.length_append] at bounded
          rcases shorter (by omega) finished with ⟨added, rfl, rfl⟩
          exact ⟨character :: added, List.flatMap_cons.symm, by simp⟩

theorem decodeFrom_flatMap_encodeChar
    (position : Nat) (read characters : List Char) :
    decodeFrom position none read (characters.flatMap encodeChar) =
      .ok (read.reverse ++ characters) := by
  induction characters generalizing position read with
  | nil => simp [decodeFrom]
  | cons character rest tailHolds =>
      rw [List.flatMap_cons]
      apply decodeFrom_encodeChar_append
      rw [tailHolds, List.reverse_cons, List.append_assoc]
      rfl

/-- Exactly the encoding of a text is decoded to it. -/
theorem decode_eq_ok_iff {bytes : List UInt8} {characters : List Char} :
    decode bytes = .ok characters ↔ bytes = encode (String.ofList characters) := by
  rw [decode, encode, String.toList_ofList]
  constructor
  · intro decoded
    rcases exists_characters_of_decodeFrom (Nat.le_refl _) decoded with ⟨added, rfl, rfl⟩
    rfl
  · rintro rfl
    exact decodeFrom_flatMap_encodeChar 0 [] characters

theorem length_encode_of_ascii
    {text : String} (ascii : ∀ character ∈ text.toList, character.toNat < 0x80) :
    (encode text).length = text.toList.length := by
  rw [encode]
  generalize text.toList = characters at ascii ⊢
  induction characters with
  | nil => rfl
  | cons character rest tailHolds =>
      rw [List.forall_mem_cons] at ascii
      have single : (encodeChar character).length = 1 := by simp [encodeChar, ascii.1]
      rw [List.flatMap_cons, List.length_append, single, tailHolds ascii.2, List.length_cons]
      omega

/-- A text has at most as many characters as bytes. -/
theorem length_le_of_decode
    {bytes : List UInt8} {characters : List Char} (decoded : decode bytes = .ok characters) :
    characters.length ≤ bytes.length := by
  rw [decode_eq_ok_iff.mp decoded, encode, String.toList_ofList, List.length_flatMap]
  clear decoded
  induction characters with
  | nil => exact Nat.le_refl _
  | cons character rest tailHolds =>
      have positive := length_encodeChar_pos character
      rw [List.length_cons, List.map_cons, List.sum_cons]
      omega

end Utf8

end Text

end WordMachine
