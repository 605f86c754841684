import WordMachine.Proofs.Payload.Format
import WordMachine.Proofs.Tables

/-!
# The grammar of payloads

A document is what a payload stores: the values of the header that are free, the
words in use, the labels and the line records, all within their bounds.  Its
bytes are the only ones it can be read from, apart from bytes behind the last
record, which are ignored.  Reading gives the image of the document
(`decode_eq_ok_iff`), and there is no other way in which reading succeeds.
-/

namespace WordMachine

namespace Payload

/-! ## The header -/

namespace Header

/-- The bytes of a header. -/
def bytes (header : Header) : List UInt8 :=
  header.magic ++
    (littleEndian 2 header.version ++
      (littleEndian 4 header.entry ++
        (littleEndian 4 header.length ++
          (littleEndian 4 header.capacity ++
            (littleEndian 4 header.labelCount ++ littleEndian 4 header.lineCount)))))

/-- The values of a header fit their fields. -/
structure IsStorable (header : Header) : Prop where
  magic_eq : header.magic = Payload.magic
  version_lt : header.version < 65536
  entry_lt : header.entry < Word.modulus
  length_lt : header.length < Word.modulus
  capacity_lt : header.capacity < Word.modulus
  labelCount_lt : header.labelCount < Word.modulus
  lineCount_lt : header.lineCount < Word.modulus

/-- The values of a header lie within their bounds. -/
structure IsAcceptable (header : Header) : Prop where
  magic_eq : header.magic = Payload.magic
  version_le : header.version ≤ Payload.version
  entry_lt : header.entry < Word.modulus
  capacity_le : (header.capacity : Int) ≤ maxCapacity
  length_le : header.length ≤ header.capacity
  labelCount_lt : header.labelCount < Word.modulus
  lineCount_lt : header.lineCount < Word.modulus

theorem IsAcceptable.isStorable {header : Header} (acceptable : header.IsAcceptable) :
    header.IsStorable := by
  have capacity_lt : header.capacity < Word.modulus := by
    have bound := acceptable.capacity_le
    rw [maxCapacity] at bound
    rw [Word.modulus]
    omega
  exact ⟨acceptable.magic_eq, Nat.lt_of_le_of_lt acceptable.version_le (by decide),
    acceptable.entry_lt, Nat.lt_of_le_of_lt acceptable.length_le capacity_lt, capacity_lt,
    acceptable.labelCount_lt, acceptable.lineCount_lt⟩

theorem length_bytes {header : Header} (storable : header.IsStorable) :
    header.bytes.length = headerSize := by
  simp [bytes, storable.magic_eq, Payload.magic, headerSize]

/-- The number at an offset, in front of the bytes behind it. -/
theorem drop_eq_numberAt_append
    {payload : List UInt8} {offset width : Nat} (enough : offset + width ≤ payload.length) :
    payload.drop offset =
      littleEndian width (numberAt payload offset width) ++ payload.drop (offset + width) := by
  have size : ((payload.drop offset).take width).length = width := by
    rw [List.length_take, List.length_drop]
    omega
  rw [numberAt, littleEndian_ofLittleEndian size, ← List.drop_drop, List.take_append_drop]

theorem numberAt_lt (payload : List UInt8) (offset : Nat) :
    numberAt payload offset 4 < Word.modulus := by
  have bound := ofLittleEndian_lt ((payload.drop offset).take 4)
  have size : ((payload.drop offset).take 4).length ≤ 4 := by
    rw [List.length_take]
    omega
  exact Nat.lt_of_lt_of_le bound (Nat.pow_le_pow_right (by decide) size)

theorem eq_bytes_ofBytes_append {payload : List UInt8} (enough : headerSize ≤ payload.length) :
    payload = (ofBytes payload).bytes ++ payload.drop headerSize := by
  rw [headerSize] at enough
  have version := @drop_eq_numberAt_append payload 4 2 (by omega)
  have entry := @drop_eq_numberAt_append payload 6 4 (by omega)
  have length := @drop_eq_numberAt_append payload 10 4 (by omega)
  have capacity := @drop_eq_numberAt_append payload 14 4 (by omega)
  have labelCount := @drop_eq_numberAt_append payload 18 4 (by omega)
  have lineCount := @drop_eq_numberAt_append payload 22 4 (by omega)
  simp only [bytes, ofBytes, List.append_assoc, headerSize]
  rw [← lineCount, ← labelCount, ← capacity, ← length, ← entry, ← version,
    List.take_append_drop]

/-- The fields of a header can be told apart: its bytes give it back, whatever follows. -/
theorem ofBytes_bytes_append
    {header : Header} (storable : header.IsStorable) (rest : List UInt8) :
    ofBytes (header.bytes ++ rest) = header := by
  rcases header with ⟨magic, version, entry, length, capacity, labelCount, lineCount⟩
  rcases storable with
    ⟨magic_eq, version_lt, entry_lt, length_lt, capacity_lt, labelCount_lt, lineCount_lt⟩
  simp only at *
  subst magic_eq
  -- Every field has a fixed width, so the fields can be read off the bytes by evaluation.
  show Header.mk Payload.magic (ofLittleEndian (littleEndian 2 version))
      (ofLittleEndian (littleEndian 4 entry)) (ofLittleEndian (littleEndian 4 length))
      (ofLittleEndian (littleEndian 4 capacity)) (ofLittleEndian (littleEndian 4 labelCount))
      (ofLittleEndian (littleEndian 4 lineCount)) = _
  rw [ofLittleEndian_littleEndian_two version_lt, ofLittleEndian_littleEndian_four entry_lt,
    ofLittleEndian_littleEndian_four length_lt, ofLittleEndian_littleEndian_four capacity_lt,
    ofLittleEndian_littleEndian_four labelCount_lt, ofLittleEndian_littleEndian_four lineCount_lt]

end Header

/-- A header is read exactly when it is acceptable and the payload starts with its bytes. -/
theorem readHeader_eq_ok_iff {payload : List UInt8} {header : Header} :
    readHeader payload = .ok header ↔
      header.IsAcceptable ∧ payload = header.bytes ++ payload.drop headerSize := by
  constructor
  · intro read
    simp only [readHeader] at read
    split at read
    · cases read
    case isFalse enough =>
      split at read
      · cases read
      case isFalse magic =>
        split at read
        · cases read
        case isFalse version =>
          split at read
          · cases read
          case isFalse capacity =>
            split at read
            · cases read
            case isFalse length =>
              cases read
              refine ⟨?_, Header.eq_bytes_ofBytes_append (Nat.le_of_not_lt enough)⟩
              constructor
              case magic_eq => exact Decidable.of_not_not magic
              case version_le => exact Nat.le_of_not_lt version
              case entry_lt => exact Header.numberAt_lt payload 6
              case capacity_le => exact Int.not_lt.mp capacity
              case length_le => exact Nat.le_of_not_lt length
              case labelCount_lt => exact Header.numberAt_lt payload 18
              case lineCount_lt => exact Header.numberAt_lt payload 22
  · rintro ⟨acceptable, stored⟩
    have enough : ¬ payload.length < headerSize := by
      rw [stored, List.length_append, Header.length_bytes acceptable.isStorable]
      omega
    have header_eq : Header.ofBytes payload = header := by
      rw [stored]
      exact Header.ofBytes_bytes_append acceptable.isStorable _
    simp only [readHeader, header_eq, if_neg enough]
    rw [if_neg (not_not_intro acceptable.magic_eq), if_neg (Nat.not_lt.mpr acceptable.version_le),
      if_neg (Int.not_lt.mpr acceptable.capacity_le), if_neg (Nat.not_lt.mpr acceptable.length_le)]

theorem readCode_eq_ok_iff
    {header : Header} {before after : Cursor} {code : Array Int} :
    readCode header before = .ok (code, after) ↔
      ∃ words : List Int,
        words.length = header.length ∧ (∀ word ∈ words, Word.Fits word) ∧
          before.Moves (words.flatMap wordBytes) after ∧
            code = words.toArray ++ Array.replicate (header.capacity - header.length) 0 := by
  simp only [readCode]
  constructor
  · intro read
    cases taken : before.take? (4 * header.length) with
    | none =>
        rw [taken] at read
        cases read
    | some found =>
        rcases found with ⟨bytes, unread⟩
        rw [taken] at read
        cases read
        rcases take?_eq_some_iff.mp taken with ⟨size, moves⟩
        rcases exists_words_of_length size with ⟨words, length, fits, rfl⟩
        refine ⟨words, length, fits, moves, ?_⟩
        rw [wordsOfBytes, wordsFrom_flatMap_wordBytes fits, Array.empty_append]
  · rintro ⟨words, length, fits, moves, rfl⟩
    have size : (words.flatMap wordBytes).length = 4 * header.length := by
      rw [length_flatMap_wordBytes, length]
    rw [take?_eq_some_iff.mpr ⟨size, moves⟩]
    simp only [wordsOfBytes, wordsFrom_flatMap_wordBytes fits, Array.empty_append]

/-! ## Documents -/

/-- What a payload stores. -/
structure Document where
  version : Nat
  entry : Nat
  capacity : Nat
  words : List Int
  labels : List (String × Int)
  lines : List LineRecord
  version_le : version ≤ Payload.version
  entry_lt : entry < Word.modulus
  capacity_le : (capacity : Int) ≤ maxCapacity
  length_le : words.length ≤ capacity
  labelCount_lt : labels.length < Word.modulus
  lineCount_lt : lines.length < Word.modulus
  words_storable : ∀ word ∈ words, wordFormat.IsStorable word
  labels_storable : ∀ item ∈ labels, labelFormat.IsStorable item
  lines_storable : ∀ entry ∈ lines, lineFormat.IsStorable entry

namespace Document

/-- The header of a document. -/
def header (document : Document) : Header where
  magic := Payload.magic
  version := document.version
  entry := document.entry
  length := document.words.length
  capacity := document.capacity
  labelCount := document.labels.length
  lineCount := document.lines.length

/-- The bytes behind the header: words, labels and line records. -/
def body (document : Document) : List UInt8 :=
  document.words.flatMap wordFormat.bytes ++
    (document.labels.flatMap labelFormat.bytes ++ document.lines.flatMap lineFormat.bytes)

/-- The bytes of a document. -/
def bytes (document : Document) : List UInt8 :=
  document.header.bytes ++ document.body

/-- The image that a document describes. -/
def image (document : Document) : Image where
  entry := document.entry
  length := document.words.length
  capacity := document.capacity
  code :=
    document.words.toArray ++ Array.replicate (document.capacity - document.words.length) 0
  labels := document.labels.foldl (fun table item => table.bind item.1 item.2) .empty
  lines := document.lines.foldl LineTable.record .empty
  warnings := #[]

theorem isAcceptable_header (document : Document) : document.header.IsAcceptable where
  magic_eq := rfl
  version_le := document.version_le
  entry_lt := document.entry_lt
  capacity_le := document.capacity_le
  length_le := document.length_le
  labelCount_lt := document.labelCount_lt
  lineCount_lt := document.lineCount_lt

end Document

/-- A payload is read exactly when it starts with a document, and gives its image. -/
theorem decode_eq_ok_iff {payload : List UInt8} {image : Image} :
    decode payload = .ok image ↔
      ∃ (document : Document) (trailing : List UInt8),
        payload = document.bytes ++ trailing ∧ image = document.image := by
  simp only [decode, bind_eq_ok_iff, Prod.exists, readHeader_eq_ok_iff, readCode_eq_ok_iff,
    readLabels_eq_takeMany, readLines_eq_takeMany, reads_takeLabel.takeMany_eq_ok_iff,
    reads_takeLineRecord.takeMany_eq_ok_iff]
  constructor
  · rintro ⟨header, ⟨acceptable, stored⟩, _, afterCode,
      ⟨words, length, wordsFit, codeMoves, rfl⟩, _, afterLabels,
      ⟨labels, labelCount, labelsStorable, labelsMove, rfl⟩, _, afterLines,
      ⟨lines, lineCount, linesStorable, linesMove, rfl⟩, result⟩
    rcases header with ⟨magic, version, entry, _, capacity, _, _⟩
    simp only at length labelCount lineCount
    subst length labelCount lineCount
    have magic_eq : magic = Payload.magic := acceptable.magic_eq
    subst magic_eq
    refine ⟨⟨version, entry, capacity, words, labels, lines, acceptable.version_le,
      acceptable.entry_lt, acceptable.capacity_le, acceptable.length_le,
      acceptable.labelCount_lt, acceptable.lineCount_lt, wordsFit, labelsStorable,
      linesStorable⟩, afterLines.rest, ?_, ?_⟩
    · have bodyMoves :=
        Cursor.Moves.append_iff.mpr
          ⟨afterCode, codeMoves, Cursor.Moves.append_iff.mpr ⟨afterLabels, labelsMove, linesMove⟩⟩
      rw [stored, Document.bytes, List.append_assoc]
      exact congrArg _ bodyMoves.1
    · cases result
      simp [Document.image, LineTable.recordAll_eq_foldl]
  · rintro ⟨document, trailing, rfl, rfl⟩
    have acceptable := document.isAcceptable_header
    have behind : (document.bytes ++ trailing).drop headerSize = document.body ++ trailing := by
      rw [Document.bytes, List.append_assoc]
      exact List.drop_left' (Header.length_bytes acceptable.isStorable)
    rw [behind]
    have bodyMoves : Cursor.Moves ⟨headerSize, document.body ++ trailing⟩ document.body
        ⟨headerSize + document.body.length, trailing⟩ :=
      ⟨rfl, rfl⟩
    rcases Cursor.Moves.append_iff.mp bodyMoves with ⟨afterCode, codeMoves, tablesMove⟩
    rcases Cursor.Moves.append_iff.mp tablesMove with ⟨afterLabels, labelsMove, linesMove⟩
    refine ⟨document.header, ⟨acceptable, by rw [Document.bytes, List.append_assoc]⟩, _, afterCode,
      ⟨document.words, rfl, document.words_storable, codeMoves, rfl⟩, _, afterLabels,
      ⟨document.labels, rfl, document.labels_storable, labelsMove, rfl⟩, _, _,
      ⟨document.lines, rfl, document.lines_storable, linesMove, rfl⟩, ?_⟩
    simp [pure, Except.pure, Document.image, Document.header, LineTable.recordAll_eq_foldl]

/-! ## Acceptance -/

/-- The bytes of a document, followed by any bytes at all. -/
def StartsWithDocument (payload : List UInt8) : Prop :=
  ∃ (document : Document) (trailing : List UInt8), payload = document.bytes ++ trailing

/-- The image holds what the document stores. -/
structure Document.Describes (document : Document) (image : Image) : Prop where
  entry_eq : image.entry = document.entry
  length_eq : image.length = document.words.length
  capacity_eq : image.capacity = document.capacity
  size_eq : image.code.size = document.capacity
  stored_word : ∀ (index : Nat) (word : Int), document.words[index]? = some word →
    image.code[index]? = some word
  blank_word : ∀ index : Nat, document.words.length ≤ index → index < document.capacity →
    image.code[index]? = some 0
  /-- Names are bound as they are stored, in stored order. -/
  labels_eq :
    image.labels = document.labels.foldl (fun table item => table.bind item.1 item.2) .empty
  /-- The last of equal names wins. -/
  last_label : ∀ (earlier later : List (String × Int)) (name : String) (address : Int),
    document.labels = earlier ++ (name, address) :: later → (∀ item ∈ later, item.1 ≠ name) →
      image.labels.bindings.get? name = some address
  lines_eq : image.lines = document.lines.foldl LineTable.record .empty
  warnings_eq : image.warnings = #[]

theorem Document.describes_image (document : Document) : document.Describes document.image where
  entry_eq := rfl
  length_eq := rfl
  capacity_eq := rfl
  size_eq := by
    have inside := document.length_le
    simp only [Document.image, Array.size_append, List.size_toArray, Array.size_replicate]
    omega
  stored_word := by
    intro index word found
    rcases List.getElem?_eq_some_iff.mp found with ⟨inside, _⟩
    rw [Document.image, Array.getElem?_append_left (by simpa using inside), List.getElem?_toArray]
    exact found
  blank_word := by
    intro index behind inside
    rw [Document.image, Array.getElem?_append_right (by simpa using behind),
      Array.getElem?_replicate, if_pos]
    simp only [List.size_toArray]
    omega
  labels_eq := rfl
  last_label := by
    intro earlier later name address split last
    rw [Document.image, split]
    exact LabelTable.get?_foldl_bind_of_last .empty last
  lines_eq := rfl
  warnings_eq := rfl

theorem decode_eq_ok_or_error (payload : List UInt8) :
    (∃ image, decode payload = .ok image) ∨ ∃ fault, decode payload = .error fault := by
  cases decode payload with
  | error fault => exact .inr ⟨fault, rfl⟩
  | ok image => exact .inl ⟨image, rfl⟩

/--
Reading accepts exactly the payloads that start with a document, refuses all
others with a fault, and gives an image that holds what the document stores.
-/
theorem decode_accepts_documents (payload : List UInt8) :
    ((∃ image, decode payload = .ok image) ↔ StartsWithDocument payload) ∧
      ((∃ fault, decode payload = .error fault) ↔ ¬ StartsWithDocument payload) ∧
        ∀ (document : Document) (trailing : List UInt8), payload = document.bytes ++ trailing →
          ∃ image, decode payload = .ok image ∧ document.Describes image := by
  have accepted : (∃ image, decode payload = .ok image) ↔ StartsWithDocument payload := by
    constructor
    · rintro ⟨image, decoded⟩
      rcases decode_eq_ok_iff.mp decoded with ⟨document, trailing, stored, _⟩
      exact ⟨document, trailing, stored⟩
    · rintro ⟨document, trailing, stored⟩
      exact ⟨document.image, decode_eq_ok_iff.mpr ⟨document, trailing, stored, rfl⟩⟩
  refine ⟨accepted, ?_, ?_⟩
  · rw [← accepted]
    constructor
    · rintro ⟨fault, refused⟩ ⟨image, decoded⟩
      rw [refused] at decoded
      cases decoded
    · intro refused
      exact (decode_eq_ok_or_error payload).resolve_left refused
  · intro document trailing stored
    exact ⟨document.image, decode_eq_ok_iff.mpr ⟨document, trailing, stored, rfl⟩,
      document.describes_image⟩

end Payload

end WordMachine
