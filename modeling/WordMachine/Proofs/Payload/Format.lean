import WordMachine.Payload.Read
import WordMachine.Proofs.Text.Utf8

/-!
# Formats of stored values

A format says which values can be stored and by which bytes.  Writing follows a
format if it gives exactly these bytes, and nothing for other values.  Reading
follows it if it takes exactly these bytes, from wherever it stands, and accepts
no others.  Words, names, labels and line records are written and read by one
format each, and so are sequences of them.
-/

namespace WordMachine

namespace Payload

theorem bind_eq_ok_iff
    {α β : Type} {first : Except PayloadFault α} {next : α → Except PayloadFault β} {result : β} :
    (first >>= next) = .ok result ↔ ∃ value, first = .ok value ∧ next value = .ok result := by
  cases first with
  | error fault => simp [bind, Except.bind]
  | ok value => simp [bind, Except.bind]

/-! ## Numbers -/

theorem ofLittleEndian_lt (bytes : List UInt8) :
    ofLittleEndian bytes < Nat.pow 256 bytes.length := by
  induction bytes with
  | nil => decide
  | cons byte rest tailHolds =>
      have small := byte.toNat_lt
      show byte.toNat + 256 * ofLittleEndian rest < Nat.pow 256 rest.length * 256
      omega

/-- As many bytes as a field is wide are the stored form of the number they give. -/
theorem littleEndian_ofLittleEndian {width : Nat} {bytes : List UInt8}
    (size : bytes.length = width) :
    littleEndian width (ofLittleEndian bytes) = bytes := by
  induction bytes generalizing width with
  | nil =>
      subst size
      rfl
  | cons byte rest tailHolds =>
      subst size
      have small := byte.toNat_lt
      have low : (byte.toNat + 256 * ofLittleEndian rest) % 256 = byte.toNat := by omega
      have high : (byte.toNat + 256 * ofLittleEndian rest) / 256 = ofLittleEndian rest := by omega
      rw [List.length_cons, littleEndian, ofLittleEndian, low, high, UInt8.ofNat_toNat,
        tailHolds rfl]

/-- The bytes of a signed word. -/
def wordBytes (word : Int) : List UInt8 :=
  littleEndian 4 (Word.lowBits word)

@[simp]
theorem length_wordBytes (word : Int) : (wordBytes word).length = 4 :=
  length_littleEndian 4 _

theorem wordOfBytes_wordBytes {word : Int} (fits : Word.Fits word) :
    wordOfBytes (wordBytes word) = word := by
  rw [wordOfBytes, wordBytes, ofLittleEndian_littleEndian_four (Word.lowBits_lt word)]
  have nonnegative : 0 ≤ word % (Word.modulus : Int) := Int.emod_nonneg _ (by decide)
  rw [Word.lowBits, Int.toNat_of_nonneg nonnegative, Word.wrap, Int.emod_bmod]
  exact Word.wrap_of_fits fits

theorem wordBytes_wordOfBytes {bytes : List UInt8} (size : bytes.length = 4) :
    wordBytes (wordOfBytes bytes) = bytes := by
  have small : ofLittleEndian bytes < Word.modulus := by
    have bound := ofLittleEndian_lt bytes
    rw [size] at bound
    exact bound
  have low : Word.lowBits (wordOfBytes bytes) = ofLittleEndian bytes := by
    rw [Word.lowBits, wordOfBytes, Word.wrap, Int.bmod_emod,
      Int.emod_eq_of_lt (Int.natCast_nonneg _) (Int.ofNat_lt.mpr small), Int.toNat_natCast]
  rw [wordBytes, low, littleEndian_ofLittleEndian size]

theorem length_flatMap_wordBytes (words : List Int) :
    (words.flatMap wordBytes).length = 4 * words.length := by
  induction words with
  | nil => rfl
  | cons word rest tailHolds =>
      rw [List.flatMap_cons, List.length_append, length_wordBytes, tailHolds, List.length_cons]
      omega

theorem wordsFrom_flatMap_wordBytes
    {words : List Int} (fits : ∀ word ∈ words, Word.Fits word) (found : Array Int) :
    wordsFrom found (words.flatMap wordBytes) = found ++ words.toArray := by
  induction words generalizing found with
  | nil => simp [wordsFrom]
  | cons word rest tailHolds =>
      rw [List.forall_mem_cons] at fits
      have first : wordsFrom found (wordBytes word ++ rest.flatMap wordBytes) =
          wordsFrom (found.push (wordOfBytes (wordBytes word))) (rest.flatMap wordBytes) := rfl
      rw [List.flatMap_cons, first, wordOfBytes_wordBytes fits.1, tailHolds fits.2]
      simp

theorem exists_words_of_length {count : Nat} {bytes : List UInt8}
    (size : bytes.length = 4 * count) :
    ∃ words : List Int,
      words.length = count ∧ (∀ word ∈ words, Word.Fits word) ∧
        bytes = words.flatMap wordBytes := by
  induction count generalizing bytes with
  | zero =>
      have empty : bytes = [] := List.length_eq_zero_iff.mp size
      exact ⟨[], rfl, by simp, empty⟩
  | succ count countHolds =>
      have first : (bytes.take 4).length = 4 := by
        rw [List.length_take]
        omega
      have others : (bytes.drop 4).length = 4 * count := by
        rw [List.length_drop]
        omega
      rcases countHolds others with ⟨words, length, fits, stored⟩
      refine ⟨wordOfBytes (bytes.take 4) :: words, ?_, ?_, ?_⟩
      · rw [List.length_cons, length]
      · rw [List.forall_mem_cons]
        exact ⟨Word.wrap_fits _, fits⟩
      · rw [List.flatMap_cons, wordBytes_wordOfBytes first, ← stored, List.take_append_drop]

/-! ## Writing and reading -/

/-- Which values can be stored, and by which bytes. -/
structure Format (α : Type) where
  IsStorable : α → Prop
  bytes : α → List UInt8

/-- Reading the bytes moves one cursor to the other. -/
def Cursor.Moves (before : Cursor) (bytes : List UInt8) (after : Cursor) : Prop :=
  before.rest = bytes ++ after.rest ∧ after.offset = before.offset + bytes.length

namespace Cursor.Moves

theorem nil_iff {before after : Cursor} : before.Moves [] after ↔ after = before := by
  rcases before with ⟨offset, rest⟩
  rcases after with ⟨_, _⟩
  simp [Moves, and_comm, eq_comm]

/-- Bytes are read in one go exactly when they are read in two. -/
theorem append_iff {before after : Cursor} {bytes more : List UInt8} :
    before.Moves (bytes ++ more) after ↔
      ∃ between, before.Moves bytes between ∧ Moves between more after := by
  constructor
  · rintro ⟨rest, offset⟩
    rw [List.length_append, ← Nat.add_assoc] at offset
    exact ⟨⟨before.offset + bytes.length, more ++ after.rest⟩,
      ⟨by rw [rest, List.append_assoc], rfl⟩, ⟨rfl, offset⟩⟩
  · rintro ⟨between, ⟨rest, offset⟩, ⟨moreRest, moreOffset⟩⟩
    rw [moreRest, ← List.append_assoc] at rest
    rw [offset, Nat.add_assoc, ← List.length_append] at moreOffset
    exact ⟨rest, moreOffset⟩

end Cursor.Moves

namespace Format

variable {α β : Type}

/-- Writing gives the bytes of storable values and nothing for other values. -/
def Writes (format : Format α) (write : α → Option (List UInt8)) : Prop :=
  ∀ value stored, write value = some stored ↔
    format.IsStorable value ∧ stored = format.bytes value

/-- Reading takes the bytes of storable values and nothing else. -/
def Reads (format : Format α) (take : Cursor → Except PayloadFault (α × Cursor)) : Prop :=
  ∀ before value after, take before = .ok (value, after) ↔
    format.IsStorable value ∧ before.Moves (format.bytes value) after

/-- Writing each of the values. -/
theorem Writes.mapM_eq_some_iff
    {format : Format α} {write : α → Option (List UInt8)} (writes : format.Writes write)
    {values : List α} {stored : List (List UInt8)} :
    values.mapM write = some stored ↔
      (∀ value ∈ values, format.IsStorable value) ∧ stored = values.map format.bytes := by
  induction values generalizing stored with
  | nil => simp [eq_comm]
  | cons value rest tailHolds =>
      rw [List.mapM_cons, List.forall_mem_cons]
      simp only [Option.bind_eq_bind, Option.bind_eq_some_iff, Option.pure_def,
        Option.some.injEq, writes value, tailHolds]
      constructor
      · rintro ⟨_, ⟨first, rfl⟩, _, ⟨others, rfl⟩, rfl⟩
        exact ⟨⟨first, others⟩, rfl⟩
      · rintro ⟨⟨first, others⟩, rfl⟩
        exact ⟨_, ⟨first, rfl⟩, _, ⟨others, rfl⟩, rfl⟩

/-- Take `count` values and combine them from left to right. -/
def takeMany (take : Cursor → Except PayloadFault (α × Cursor)) (combine : β → α → β)
    (start : β) (cursor : Cursor) : (count : Nat) → Except PayloadFault (β × Cursor)
  | 0 => .ok (start, cursor)
  | count + 1 =>
      match take cursor with
      | .error fault => .error fault
      | .ok (value, cursor) => takeMany take combine (combine start value) cursor count

/-- Reading many values takes the bytes of as many storable values, one after the other. -/
theorem Reads.takeMany_eq_ok_iff
    {format : Format α} {take : Cursor → Except PayloadFault (α × Cursor)}
    (reads : format.Reads take) {combine : β → α → β} {start result : β}
    {before after : Cursor} {count : Nat} :
    takeMany take combine start before count = .ok (result, after) ↔
      ∃ values : List α,
        values.length = count ∧ (∀ value ∈ values, format.IsStorable value) ∧
          before.Moves (values.flatMap format.bytes) after ∧
            result = values.foldl combine start := by
  induction count generalizing start before with
  | zero =>
      simp only [takeMany, Except.ok.injEq, Prod.mk.injEq]
      constructor
      · rintro ⟨rfl, rfl⟩
        exact ⟨[], rfl, by simp, Cursor.Moves.nil_iff.mpr rfl, rfl⟩
      · rintro ⟨values, none, _, moves, rfl⟩
        cases List.length_eq_zero_iff.mp none
        exact ⟨rfl, (Cursor.Moves.nil_iff.mp moves).symm⟩
  | succ count countHolds =>
      simp only [takeMany]
      constructor
      · intro taken
        cases first : take before with
        | error fault =>
            rw [first] at taken
            cases taken
        | ok found =>
            rcases found with ⟨value, between⟩
            rw [first] at taken
            rcases (reads before value between).mp first with ⟨storable, moves⟩
            rcases countHolds.mp taken with ⟨values, length, allStorable, allMove, combined⟩
            refine ⟨value :: values, by rw [List.length_cons, length], ?_, ?_, combined⟩
            · rw [List.forall_mem_cons]
              exact ⟨storable, allStorable⟩
            · rw [List.flatMap_cons]
              exact Cursor.Moves.append_iff.mpr ⟨between, moves, allMove⟩
      · rintro ⟨values, length, storable, moves, combined⟩
        match values, length with
        | value :: values, length =>
            rw [List.forall_mem_cons] at storable
            rcases Cursor.Moves.append_iff.mp moves with ⟨between, firstMoves, othersMove⟩
            rw [(reads before value between).mpr ⟨storable.1, firstMoves⟩]
            exact countHolds.mpr
              ⟨values, Nat.succ.inj length, storable.2, othersMove, combined⟩

end Format

/-! ## Words and names -/

theorem take?_eq_some_iff
    {before after : Cursor} {count : Nat} {bytes : List UInt8} :
    before.take? count = some (bytes, after) ↔ bytes.length = count ∧ before.Moves bytes after := by
  rcases before with ⟨offset, rest⟩
  simp only [Cursor.take?, Cursor.Moves]
  constructor
  · intro taken
    split at taken
    case isTrue enough =>
      cases taken
      exact ⟨enough, (List.take_append_drop count rest).symm, by rw [enough]⟩
    case isFalse => cases taken
  · rintro ⟨rfl, rfl, moved⟩
    rcases after with ⟨stop, unread⟩
    simp only at moved
    simp [moved]

theorem takeBytes_eq_ok_iff
    {before after : Cursor} {count : Nat} {bytes : List UInt8} :
    before.takeBytes count = .ok (bytes, after) ↔
      bytes.length = count ∧ before.Moves bytes after := by
  rw [← take?_eq_some_iff, Cursor.takeBytes]
  cases before.take? count with
  | none => simp
  | some taken => simp

/-- Signed words of four bytes. -/
def wordFormat : Format Int where
  IsStorable := Word.Fits
  bytes := wordBytes

instance (word : Int) : Decidable (wordFormat.IsStorable word) :=
  inferInstanceAs (Decidable (Word.Fits word))

theorem writes_wordField : wordFormat.Writes wordField? := by
  intro word stored
  simp [wordField?, wordFormat, wordBytes, eq_comm]

/-- Names in UTF-8 behind the number of their bytes, which is stored in two. -/
def nameFormat : Format String where
  IsStorable name := name.utf8ByteSize ≤ 65535
  bytes name := littleEndian 2 name.utf8ByteSize ++ name.toByteArray.data.toList

instance (name : String) : Decidable (nameFormat.IsStorable name) :=
  inferInstanceAs (Decidable (_ ≤ _))

theorem length_encode (name : String) :
    (Text.Utf8.encode name).length = name.utf8ByteSize := by
  rw [Text.Utf8.encode_eq_toByteArray]
  rfl

theorem writes_nameField : nameFormat.Writes nameField? := by
  intro name stored
  simp [nameField?, nameFormat, Text.Utf8.encode_eq_toByteArray, eq_comm]

theorem reads_takeName : nameFormat.Reads Cursor.takeName := by
  intro before name after
  simp only [Cursor.takeName, bind_eq_ok_iff, Prod.exists, takeBytes_eq_ok_iff, nameFormat,
    ← Text.Utf8.encode_eq_toByteArray, ← length_encode, Cursor.Moves.append_iff]
  constructor
  · rintro ⟨size, between, ⟨two, sizeMoves⟩, bytes, last, ⟨length, bytesMove⟩, decoded⟩
    cases characters : Text.Utf8.decode bytes with
    | error fault =>
        rw [characters] at decoded
        cases decoded
    | ok read =>
        rw [characters] at decoded
        cases decoded
        have encoded := Text.Utf8.decode_eq_ok_iff.mp characters
        rw [← encoded, length, littleEndian_ofLittleEndian two]
        have bound := ofLittleEndian_lt size
        rw [two] at bound
        exact ⟨Nat.le_of_lt_succ bound, between, sizeMoves, bytesMove⟩
  · rintro ⟨storable, between, sizeMoves, bytesMove⟩
    refine ⟨_, between, ⟨length_littleEndian 2 _, sizeMoves⟩, _, after, ⟨?_, bytesMove⟩, ?_⟩
    · rw [ofLittleEndian_littleEndian_two (Nat.lt_succ_of_le storable)]
    · have decoded : Text.Utf8.decode (Text.Utf8.encode name) = .ok name.toList := by
        rw [Text.Utf8.decode_eq_ok_iff, String.ofList_toList]
      simp only [decoded, String.ofList_toList]

/-! ## Labels and line records -/

/-- A name and an address. -/
def labelFormat : Format (String × Int) where
  IsStorable item := nameFormat.IsStorable item.1 ∧ Word.Fits item.2
  bytes item := nameFormat.bytes item.1 ++ wordBytes item.2

instance (item : String × Int) : Decidable (labelFormat.IsStorable item) :=
  inferInstanceAs (Decidable (_ ∧ _))

theorem writes_label : labelFormat.Writes label? := by
  intro item stored
  simp only [label?, Option.bind_eq_bind, Option.bind_eq_some_iff, writes_nameField item.1,
    writes_wordField item.2, Option.pure_def, Option.some.injEq]
  constructor
  · rintro ⟨_, ⟨name, rfl⟩, _, ⟨address, rfl⟩, rfl⟩
    exact ⟨⟨name, address⟩, rfl⟩
  · rintro ⟨⟨name, address⟩, rfl⟩
    exact ⟨_, ⟨name, rfl⟩, _, ⟨address, rfl⟩, rfl⟩

theorem reads_takeLabel : labelFormat.Reads Cursor.takeLabel := by
  intro before item after
  rcases item with ⟨name, address⟩
  simp only [Cursor.takeLabel, bind_eq_ok_iff, Prod.exists, reads_takeName before,
    takeBytes_eq_ok_iff, labelFormat, Cursor.Moves.append_iff]
  constructor
  · rintro ⟨_, between, ⟨storable, nameMoves⟩, bytes, _, ⟨four, bytesMove⟩, result⟩
    cases result
    rw [wordBytes_wordOfBytes four]
    exact ⟨⟨storable, Word.wrap_fits _⟩, between, nameMoves, bytesMove⟩
  · rintro ⟨⟨storable, fits⟩, between, nameMoves, bytesMove⟩
    refine ⟨name, between, ⟨storable, nameMoves⟩, _, after, ⟨length_wordBytes _, bytesMove⟩, ?_⟩
    rw [wordOfBytes_wordBytes fits]
    rfl

/-- A file name, a line number, and where the range of addresses starts and stops. -/
def lineFormat : Format LineRecord where
  IsStorable entry :=
    nameFormat.IsStorable entry.source.filename ∧ Word.Fits entry.source.number ∧
      Word.Fits entry.range.start ∧ Word.Fits entry.range.stop
  bytes entry :=
    nameFormat.bytes entry.source.filename ++
      (wordBytes entry.source.number ++ wordBytes entry.range.start ++ wordBytes entry.range.stop)

instance (entry : LineRecord) : Decidable (lineFormat.IsStorable entry) :=
  inferInstanceAs (Decidable (_ ∧ _ ∧ _ ∧ _))

theorem writes_lineRecord : lineFormat.Writes lineRecord? := by
  intro entry stored
  simp only [lineRecord?, Option.bind_eq_bind, Option.bind_eq_some_iff, Option.pure_def,
    writes_nameField entry.source.filename, writes_wordField entry.source.number,
    writes_wordField entry.range.start, writes_wordField entry.range.stop, Option.some.injEq]
  constructor
  · rintro ⟨_, ⟨name, rfl⟩, _, ⟨number, rfl⟩, _, ⟨start, rfl⟩, _, ⟨stop, rfl⟩, rfl⟩
    exact ⟨⟨name, number, start, stop⟩, by simp [lineFormat, wordFormat]⟩
  · rintro ⟨⟨name, number, start, stop⟩, rfl⟩
    exact ⟨_, ⟨name, rfl⟩, _, ⟨number, rfl⟩, _, ⟨start, rfl⟩, _, ⟨stop, rfl⟩,
      by simp [lineFormat, wordFormat]⟩

theorem reads_takeLineRecord : lineFormat.Reads Cursor.takeLineRecord := by
  intro before entry after
  rcases entry with ⟨⟨filename, number⟩, ⟨start, stop⟩⟩
  simp only [Cursor.takeLineRecord, bind_eq_ok_iff, Prod.exists, reads_takeName before,
    takeBytes_eq_ok_iff, lineFormat]
  rw [Cursor.Moves.append_iff]
  constructor
  · rintro ⟨_, between, ⟨storable, nameMoves⟩, bytes, _, ⟨twelve, bytesMove⟩, result⟩
    simp only [pure, Except.pure, Except.ok.injEq, Prod.mk.injEq, LineRecord.mk.injEq,
      SourceLine.mk.injEq, AddressRange.mk.injEq] at result
    rcases result with ⟨⟨⟨rfl, rfl⟩, rfl, rfl⟩, rfl⟩
    have numbers : wordBytes (wordOfBytes (bytes.take 4)) ++
        wordBytes (wordOfBytes ((bytes.drop 4).take 4)) ++
          wordBytes (wordOfBytes (bytes.drop 8)) = bytes := by
      rw [wordBytes_wordOfBytes (by simp [twelve]), wordBytes_wordOfBytes (by simp [twelve]),
        wordBytes_wordOfBytes (by simp [twelve])]
      have behind : bytes.drop 8 = (bytes.drop 4).drop 4 := by rw [List.drop_drop]
      rw [List.append_assoc, behind, List.take_append_drop, List.take_append_drop]
    simp only [numbers]
    exact ⟨⟨storable, Word.wrap_fits _, Word.wrap_fits _, Word.wrap_fits _⟩, between, nameMoves,
      bytesMove⟩
  · rintro ⟨⟨storable, numberFits, startFits, stopFits⟩, between, nameMoves, bytesMove⟩
    refine ⟨filename, between, ⟨storable, nameMoves⟩, _, after, ⟨by simp, bytesMove⟩, ?_⟩
    have first : (wordBytes number ++ wordBytes start ++ wordBytes stop).take 4 =
        wordBytes number := rfl
    have second : ((wordBytes number ++ wordBytes start ++ wordBytes stop).drop 4).take 4 =
        wordBytes start := rfl
    have third : (wordBytes number ++ wordBytes start ++ wordBytes stop).drop 8 =
        wordBytes stop := rfl
    rw [first, second, third, wordOfBytes_wordBytes numberFits, wordOfBytes_wordBytes startFits,
      wordOfBytes_wordBytes stopFits]
    rfl

/-! ## Tables -/

theorem readLabels_eq_takeMany (table : LabelTable) (cursor : Cursor) (count : Nat) :
    readLabels table cursor count =
      Format.takeMany Cursor.takeLabel (fun table item => table.bind item.1 item.2)
        table cursor count := by
  induction count generalizing table cursor with
  | zero => rfl
  | succ count countHolds =>
      simp only [readLabels, Format.takeMany, countHolds]
      cases cursor.takeLabel with
      | error fault => rfl
      | ok found => rfl

theorem readLines_eq_takeMany (found : Array LineRecord) (cursor : Cursor) (count : Nat) :
    readLines found cursor count =
      Format.takeMany Cursor.takeLineRecord Array.push found cursor count := by
  induction count generalizing found cursor with
  | zero => rfl
  | succ count countHolds =>
      simp only [readLines, Format.takeMany, countHolds]
      cases cursor.takeLineRecord with
      | error fault => rfl
      | ok read => rfl

end Payload

end WordMachine
