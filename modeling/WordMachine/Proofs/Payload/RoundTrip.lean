import WordMachine.Proofs.Payload.Document
import WordMachine.Proofs.Program.Load

/-!
# Reading what was written

A written payload is the bytes of one document, whose words are those in use and
whose labels and line records are those of the tables, in table order.  Binding
and recording them again rebuilds the tables, because a table is what its own
entries make of the empty one.  Only the warnings and the words behind the
length are lost, and a load leaves nothing but zeros there.
-/

namespace WordMachine

namespace Payload

/-! ## What writing needs -/

theorem unsignedField?_eq_some_iff {number : Int} {stored : List UInt8} :
    unsignedField? number = some stored ↔
      (0 ≤ number ∧ number < Word.modulus) ∧ stored = littleEndian 4 number.toNat := by
  simp [unsignedField?, eq_comm]

/-- The values that the header of an image stores fit their fields. -/
structure HasHeader (image : Image) : Prop where
  entry : 0 ≤ image.entry ∧ image.entry < Word.modulus
  length : 0 ≤ image.length ∧ image.length < Word.modulus
  capacity : 0 ≤ image.capacity ∧ image.capacity < Word.modulus
  labelCount : image.labels.items.length < Word.modulus
  lineCount : image.lines.records.length < Word.modulus

/-- The header of an image. -/
def headerOf (image : Image) : Header where
  magic := Payload.magic
  version := Payload.version
  entry := image.entry.toNat
  length := image.length.toNat
  capacity := image.capacity.toNat
  labelCount := image.labels.items.length
  lineCount := image.lines.records.length

theorem header?_eq_some_iff {image : Image} {stored : List UInt8} :
    header? image = some stored ↔ HasHeader image ∧ stored = (headerOf image).bytes := by
  simp only [header?, Option.bind_eq_bind, Option.bind_eq_some_iff, Option.pure_def,
    Option.some.injEq, unsignedField?_eq_some_iff]
  constructor
  · rintro ⟨_, ⟨entry, rfl⟩, _, ⟨length, rfl⟩, _, ⟨capacity, rfl⟩, _, ⟨labelCount, rfl⟩, _,
      ⟨lineCount, rfl⟩, rfl⟩
    refine ⟨⟨entry, length, capacity, Int.ofNat_lt.mp labelCount.2, Int.ofNat_lt.mp lineCount.2⟩,
      ?_⟩
    simp only [Header.bytes, headerOf, List.append_assoc]
    rfl
  · rintro ⟨fits, rfl⟩
    refine ⟨_, ⟨fits.entry, rfl⟩, _, ⟨fits.length, rfl⟩, _, ⟨fits.capacity, rfl⟩, _,
      ⟨⟨Int.natCast_nonneg _, Int.ofNat_lt.mpr fits.labelCount⟩, rfl⟩, _,
      ⟨⟨Int.natCast_nonneg _, Int.ofNat_lt.mpr fits.lineCount⟩, rfl⟩, ?_⟩
    simp only [Header.bytes, headerOf, List.append_assoc]
    rfl

theorem code?_eq_some_iff {image : Image} {stored : List UInt8} :
    code? image = some stored ↔
      (image.usedCode.length : Int) = image.length ∧
        (∀ word ∈ image.usedCode, wordFormat.IsStorable word) ∧
          stored = image.usedCode.flatMap wordFormat.bytes := by
  simp only [code?, Option.ite_none_right_eq_some, Option.map_eq_some_iff,
    writes_wordField.mapM_eq_some_iff, List.flatMap_def]
  constructor
  · rintro ⟨length, _, ⟨storable, rfl⟩, rfl⟩
    exact ⟨length, storable, rfl⟩
  · rintro ⟨length, storable, rfl⟩
    exact ⟨length, _, ⟨storable, rfl⟩, rfl⟩

/-- Every value of an image fits its field, and the image has the words that it claims to have. -/
structure IsWritable (image : Image) : Prop where
  header : HasHeader image
  length_eq : (image.usedCode.length : Int) = image.length
  words : ∀ word ∈ image.usedCode, wordFormat.IsStorable word
  labels : ∀ item ∈ image.labels.items, labelFormat.IsStorable item
  lines : ∀ entry ∈ image.lines.records, lineFormat.IsStorable entry

/-- The bytes by which an image is written if its values fit. -/
def bytesOf (image : Image) : List UInt8 :=
  (headerOf image).bytes ++
    (image.usedCode.flatMap wordFormat.bytes ++
      (image.labels.items.flatMap labelFormat.bytes ++
        image.lines.records.flatMap lineFormat.bytes))

/-- An image is written exactly when its values fit. -/
theorem encode?_eq_some_iff {image : Image} {payload : List UInt8} :
    encode? image = some payload ↔ IsWritable image ∧ payload = bytesOf image := by
  simp only [encode?, Option.bind_eq_bind, Option.bind_eq_some_iff, Option.pure_def,
    Option.some.injEq, header?_eq_some_iff, code?_eq_some_iff, writes_label.mapM_eq_some_iff,
    writes_lineRecord.mapM_eq_some_iff]
  constructor
  · rintro ⟨_, ⟨header, rfl⟩, _, ⟨length, words, rfl⟩, _, ⟨labels, rfl⟩, _, ⟨lines, rfl⟩, rfl⟩
    exact ⟨⟨header, length, words, labels, lines⟩,
      by simp only [bytesOf, List.flatMap_def, List.append_assoc]⟩
  · rintro ⟨writable, rfl⟩
    exact ⟨_, ⟨writable.header, rfl⟩, _, ⟨writable.length_eq, writable.words, rfl⟩, _,
      ⟨writable.labels, rfl⟩, _, ⟨writable.lines, rfl⟩,
      by simp only [bytesOf, List.flatMap_def, List.append_assoc]⟩

theorem usedCode_of_nonneg {image : Image} (nonnegative : 0 ≤ image.length) :
    image.usedCode = image.code.toList.take image.length.toNat := by
  rw [Image.usedCode, SignedIndex.frontCount, if_neg (Int.not_lt.mpr nonnegative)]

/-- A sound image has as many words as its length says, and all of them are in range. -/
theorem usedCode_of_sound {image : Image} (sound : image.Sound) :
    (image.usedCode.length : Int) = image.length ∧ ∀ word ∈ image.usedCode, Word.Fits word := by
  have start := sound.codeStart_le_length
  have inside := sound.length_le_capacity
  have size := sound.size_eq_capacity
  rw [codeStart] at start
  rw [usedCode_of_nonneg (by omega)]
  constructor
  · rw [List.length_take, Array.length_toList]
    omega
  · intro word member
    exact sound.fits word (Array.mem_toList_iff.mp (List.mem_of_mem_take member))

/-- A sound image can be written as soon as its entry point and its tables can. -/
theorem isWritable_of_sound
    {image : Image} (sound : image.Sound) (capacitySmall : image.capacity ≤ maxCapacity)
    (entry : 0 ≤ image.entry ∧ image.entry < Word.modulus)
    (labelCount : image.labels.items.length < Word.modulus)
    (lineCount : image.lines.records.length < Word.modulus)
    (labels : ∀ item ∈ image.labels.items, labelFormat.IsStorable item)
    (lines : ∀ entry ∈ image.lines.records, lineFormat.IsStorable entry) :
    IsWritable image := by
  have start := sound.codeStart_le_length
  have inside := sound.length_le_capacity
  rw [codeStart] at start
  rw [maxCapacity] at capacitySmall
  rcases usedCode_of_sound sound with ⟨length_eq, words⟩
  refine ⟨⟨entry, ?_, ?_, labelCount, lineCount⟩, length_eq, words, labels, lines⟩
  · rw [Word.modulus]
    omega
  · rw [Word.modulus]
    omega

/-- The document stores the image. -/
structure Document.Stores (document : Document) (image : Image) : Prop where
  entry_eq : (document.entry : Int) = image.entry
  length_eq : (document.words.length : Int) = image.length
  capacity_eq : (document.capacity : Int) = image.capacity
  words_eq : document.words = image.code.toList.take image.length.toNat
  labels_eq : document.labels = image.labels.items
  lines_eq : document.lines = image.lines.records

/-- A written payload consists of a document that stores the image. -/
theorem exists_document_of_encode?
    {image : Image} {payload : List UInt8} (encoded : encode? image = some payload)
    (capacitySmall : image.capacity ≤ maxCapacity) (lengthInside : image.length ≤ image.capacity) :
    ∃ document : Document, payload = document.bytes ∧ document.Stores image := by
  rcases encode?_eq_some_iff.mp encoded with
    ⟨⟨fits, length, wordsStorable, labelsStorable, linesStorable⟩, rfl⟩
  have entry_eq : (image.entry.toNat : Int) = image.entry := Int.toNat_of_nonneg fits.entry.1
  have capacity_eq : (image.capacity.toNat : Int) = image.capacity :=
    Int.toNat_of_nonneg fits.capacity.1
  have entry_lt : image.entry.toNat < Word.modulus := by
    have bound := fits.entry.2
    omega
  have length_le : image.usedCode.length ≤ image.capacity.toNat := by
    omega
  refine ⟨⟨Payload.version, image.entry.toNat, image.capacity.toNat, image.usedCode,
    image.labels.items, image.lines.records, Nat.le_refl _, entry_lt, capacity_eq ▸ capacitySmall,
    length_le, fits.labelCount, fits.lineCount, wordsStorable, labelsStorable, linesStorable⟩,
    ?_, ?_⟩
  · have length_toNat : image.length.toNat = image.usedCode.length := by omega
    simp only [Document.bytes, Document.header, Document.body, bytesOf, headerOf, length_toNat]
  · exact ⟨entry_eq, length, capacity_eq, usedCode_of_nonneg fits.length.1, rfl, rfl⟩

/-! ## What reading restores -/

/-- The second image is the first without its warnings and with zeros behind its length. -/
structure Restores (image decoded : Image) : Prop where
  entry_eq : decoded.entry = image.entry
  length_eq : decoded.length = image.length
  capacity_eq : decoded.capacity = image.capacity
  size_eq : (decoded.code.size : Int) = image.capacity
  code_eq :
    decoded.code.toList =
      image.code.toList.take image.length.toNat ++
        List.replicate (image.capacity - image.length).toNat 0
  labels_eq : decoded.labels = image.labels
  lines_eq : decoded.lines = image.lines
  warnings_eq : decoded.warnings = #[]

theorem Document.Stores.restores
    {document : Document} {image : Image} (stores : document.Stores image) :
    Restores image document.image where
  entry_eq := stores.entry_eq
  length_eq := stores.length_eq
  capacity_eq := stores.capacity_eq
  size_eq := by
    rw [document.describes_image.size_eq]
    exact stores.capacity_eq
  code_eq := by
    have blanks : document.capacity - document.words.length =
        (image.capacity - image.length).toNat := by
      rw [← stores.capacity_eq, ← stores.length_eq]
      omega
    simp only [Document.image, Array.toList_append, Array.toList_replicate, blanks]
    rw [stores.words_eq]
  labels_eq := by
    simp only [Document.image, stores.labels_eq]
    exact LabelTable.foldl_bind_items image.labels
  lines_eq := by
    simp only [Document.image, stores.lines_eq]
    rw [← LineTable.recordAll_eq_foldl]
    exact LineTable.recordAll_records image.lines
  warnings_eq := rfl

theorem exists_restored_of_encode?
    {image : Image} {payload : List UInt8} (encoded : encode? image = some payload)
    (capacitySmall : image.capacity ≤ maxCapacity) (lengthInside : image.length ≤ image.capacity) :
    ∃ decoded, decode payload = .ok decoded ∧ Restores image decoded := by
  rcases exists_document_of_encode? encoded capacitySmall lengthInside with
    ⟨document, rfl, stores⟩
  refine ⟨document.image, ?_, stores.restores⟩
  apply decode_eq_ok_iff.mpr
  exact ⟨document, [], (List.append_nil _).symm, rfl⟩

/-- A sound image is its words in use, filled up with zeros. -/
theorem code_of_sound {image : Image} (sound : image.Sound) :
    image.code.toList =
      image.code.toList.take image.length.toNat ++
        List.replicate (image.capacity - image.length).toNat 0 := by
  have start := sound.codeStart_le_length
  have inside := sound.length_le_capacity
  have size := sound.size_eq_capacity
  rw [codeStart] at start
  have behind : image.code.toList.drop image.length.toNat =
      List.replicate (image.capacity - image.length).toNat 0 := by
    apply List.ext_getElem?
    intro offset
    rw [List.getElem?_drop, List.getElem?_replicate]
    by_cases filled : offset < (image.capacity - image.length).toNat
    · rw [if_pos filled, Array.getElem?_toList]
      apply sound.blank
      · omega
      · right
        omega
    · rw [if_neg filled]
      apply List.getElem?_eq_none
      rw [Array.length_toList]
      omega
  rw [← behind, List.take_append_drop]

theorem Restores.eq_of_sound
    {image decoded : Image} (restores : Restores image decoded) (sound : image.Sound) :
    decoded = { image with warnings := #[] } := by
  have code_eq : decoded.code = image.code := by
    apply Array.toList_inj.mp
    rw [restores.code_eq, ← code_of_sound sound]
  rcases decoded with ⟨_, _, _, _, _, _, _⟩
  simp only [Image.mk.injEq]
  exact ⟨restores.entry_eq, restores.length_eq, restores.capacity_eq, code_eq,
    restores.labels_eq, restores.lines_eq, restores.warnings_eq⟩

/--
Reading undoes writing: whatever can be written and lies within the bounds is
restored, and an image that a load gives comes back whole but for its warnings.
-/
theorem decode_restores_written :
    (∀ (image : Image) (payload : List UInt8), encode? image = some payload →
      image.capacity ≤ maxCapacity → image.length ≤ image.capacity →
        ∃ decoded, decode payload = .ok decoded ∧ Restores image decoded) ∧
      ∀ (catalog : Catalog) (capacity : Int) (assembler : Assembler) (reader : SourceReader)
        (filenames : List String) (image : Image) (payload : List UInt8),
        Assembler.create catalog capacity = .ok assembler →
          (assembler.load reader filenames).1 = .ok image → encode? image = some payload →
            decode payload = .ok { image with warnings := #[] } := by
  constructor
  · intro image payload encoded capacitySmall lengthInside
    exact exists_restored_of_encode? encoded capacitySmall lengthInside
  · intro catalog capacity assembler reader filenames image payload created loaded encoded
    rcases (Program.load_eq_ok_iff created).mp loaded with ⟨items, loads⟩
    have capacitySmall : image.capacity ≤ maxCapacity := by
      rw [loads.capacity_eq]
      exact loads.capacity_le
    rcases exists_restored_of_encode? encoded capacitySmall loads.sound.length_le_capacity with
      ⟨decoded, decodes, restores⟩
    rw [decodes, restores.eq_of_sound loads.sound]

/-- Names that keep marker and colon, and a line that was read again after another one. -/
def scatteredImage : Image where
  entry := 3
  length := 2
  capacity := 4
  code := #[-1, 7, 5]
  labels := (LabelTable.empty.bind "$é:" (-3)).bind "x" 2
  lines :=
    LineTable.empty.recordAll
      [⟨⟨"a", 1⟩, ⟨0, 1⟩⟩, ⟨⟨"b", 1⟩, ⟨1, 2⟩⟩, ⟨⟨"a", 1⟩, ⟨2, 2⟩⟩]
  warnings := #[⟨"unused", .unknown⟩]

theorem decode_restores_scatteredImage :
    (∃ payload decoded,
      encode? scatteredImage = some payload ∧ decode payload = .ok decoded ∧
        Restores scatteredImage decoded) ∧
      ∃ assembler image payload,
        Assembler.create Catalog.standard 12 = .ok assembler ∧
          (assembler.load (Program.singleSource "a" "$x push &y") ["a"]).1 = .ok image ∧
            encode? image = some payload ∧
              decode payload = .ok { image with warnings := #[] } := by
  have created : Assembler.create Catalog.standard 12 = .ok ⟨Catalog.standard, 12, none⟩ := rfl
  have writable : (encode? scatteredImage).isSome = true := by
    decide +kernel
  have succeeds :
      ((((Assembler.mk Catalog.standard 12 none).load
        (Program.singleSource "a" "$x push &y") ["a"]).1.toOption).bind encode?).isSome = true := by
    decide +kernel
  constructor
  · rcases Option.isSome_iff_exists.mp writable with ⟨payload, encoded⟩
    rcases decode_restores_written.1 scatteredImage payload encoded (by decide) (by decide) with
      ⟨decoded, decodes, restores⟩
    exact ⟨payload, decoded, encoded, decodes, restores⟩
  · rcases Option.isSome_iff_exists.mp succeeds with ⟨payload, both⟩
    rcases Option.bind_eq_some_iff.mp both with ⟨image, found, encoded⟩
    have loaded := Program.eq_ok_of_toOption found
    exact ⟨_, image, payload, created, loaded, encoded,
      decode_restores_written.2 _ _ _ _ _ image payload created loaded encoded⟩

end Payload

end WordMachine
