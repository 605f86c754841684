import WordMachine.Proofs.Payload.RoundTrip
import WordMachine.Proofs.Program.Labels
import WordMachine.Proofs.Program.Lines

/-!
# Loaded images that have a payload

The header, the words and all addresses of a loaded image fit their fields,
because a load hands out no address behind the code and the code has no more
words than an image can have.  What sources can make too large are names, line
numbers and the numbers of labels and of lines (`Loads.exists_encode?_iff`).
-/

namespace WordMachine

namespace Payload

/-- Names, line numbers and counts of an image fit the fields that store them. -/
structure FitsFields (image : Image) : Prop where
  label_names : ∀ name ∈ image.labels.names, (Text.Utf8.encode name).length ≤ 65535
  file_names : ∀ entry ∈ image.lines.records,
    (Text.Utf8.encode entry.source.filename).length ≤ 65535
  line_numbers : ∀ entry ∈ image.lines.records, entry.source.number < 2147483648
  label_count : image.labels.items.length < 4294967296
  line_count : image.lines.records.length < 4294967296

instance (image : Image) : Decidable (FitsFields image) :=
  decidable_of_iff
    ((∀ name ∈ image.labels.names, (Text.Utf8.encode name).length ≤ 65535) ∧
      (∀ entry ∈ image.lines.records,
        (Text.Utf8.encode entry.source.filename).length ≤ 65535) ∧
        (∀ entry ∈ image.lines.records, entry.source.number < 2147483648) ∧
          image.labels.items.length < 4294967296 ∧ image.lines.records.length < 4294967296)
    ⟨fun ⟨labels, files, numbers, labelCount, lineCount⟩ =>
      ⟨labels, files, numbers, labelCount, lineCount⟩,
      fun ⟨labels, files, numbers, labelCount, lineCount⟩ =>
        ⟨labels, files, numbers, labelCount, lineCount⟩⟩

/-- The header, the words and all addresses of an image are in range for their fields. -/
structure IsWithinFields (image : Image) : Prop where
  entry : 0 ≤ image.entry ∧ image.entry < 4294967296
  length : 0 ≤ image.length ∧ image.length < 4294967296
  capacity : 0 ≤ image.capacity ∧ image.capacity < 4294967296
  word_count : (image.usedCode.length : Int) = image.length
  words : ∀ word ∈ image.usedCode, Word.Fits word
  label_addresses : ∀ item ∈ image.labels.items, Word.Fits item.2
  record_ranges : ∀ entry ∈ image.lines.records,
    Word.Fits entry.range.start ∧ Word.Fits entry.range.stop
  /-- Line numbers can only be too large. -/
  numbers_pos : ∀ entry ∈ image.lines.records, 0 < entry.source.number

/-- An image whose addresses are in range has a payload exactly if the rest of it fits. -/
theorem IsWithinFields.isWritable_iff {image : Image} (within : IsWithinFields image) :
    IsWritable image ↔ FitsFields image := by
  constructor
  · intro writable
    constructor
    case label_names =>
      intro name member
      rcases List.mem_map.mp member with ⟨item, bound, rfl⟩
      rw [length_encode]
      exact (writable.labels item bound).1
    case file_names =>
      intro entry member
      rw [length_encode]
      exact (writable.lines entry member).1
    case line_numbers =>
      intro entry member
      exact (writable.lines entry member).2.1.2
    case label_count => exact writable.header.labelCount
    case line_count => exact writable.header.lineCount
  · intro fits
    constructor
    case header =>
      exact ⟨within.entry, within.length, within.capacity, fits.label_count, fits.line_count⟩
    case length_eq => exact within.word_count
    case words => exact within.words
    case labels =>
      intro item member
      have name_fits := fits.label_names item.1 (List.mem_map_of_mem member)
      rw [length_encode] at name_fits
      exact ⟨name_fits, within.label_addresses item member⟩
    case lines =>
      intro entry member
      have name_fits := fits.file_names entry member
      have number_fits := fits.line_numbers entry member
      have number_pos := within.numbers_pos entry member
      rw [length_encode] at name_fits
      refine ⟨name_fits, ?_, within.record_ranges entry member⟩
      rw [Word.Fits]
      omega

end Payload

namespace Program

/-! ## The records of a load -/

/-- Records that tile an interval lie inside it. -/
theorem Tiles.bounds
    {start stop : Int} {records : List LineRecord} (tiles : Tiles start stop records) :
    start ≤ stop ∧ ∀ entry ∈ records, start ≤ entry.range.start ∧ start ≤ entry.range.stop ∧
      entry.range.start ≤ stop ∧ entry.range.stop ≤ stop := by
  induction records generalizing start with
  | nil => exact ⟨Int.le_of_eq tiles, by simp⟩
  | cons first rest tailHolds =>
      rcases tiles with ⟨place, forward, tail⟩
      rcases tailHolds tail with ⟨rest_le, inside⟩
      refine ⟨by omega, List.forall_mem_cons.mpr ⟨by omega, ?_⟩⟩
      intro entry member
      have bounds := inside entry member
      omega

/-- Lines are counted from one on. -/
theorem number_pos_of_mem_sourceLines
    {reader : SourceReader} {filename : String} {line : PlacedLine}
    (member : line ∈ sourceLines reader filename) :
    0 < line.1.number := by
  rw [sourceLines] at member
  cases read : readText reader filename with
  | error fault => simp [read] at member
  | ok text =>
      simp only [read, linesOf, List.mem_filterMap] at member
      rcases member with ⟨⟨characters, number⟩, numbered, placed⟩
      have positive := List.le_snd_of_mem_zipIdx numbered
      simp only [placeLine?, Option.ite_none_left_eq_some, Option.some.injEq] at placed
      rw [← placed.2]
      simp only
      omega

namespace Loads

variable {catalog : Catalog} {capacity : Int} {reader : SourceReader}
  {filenames : List String} {items : List Item} {image : Image}

theorem length_le_maxCapacity (loads : Loads catalog capacity reader filenames items image) :
    image.length ≤ maxCapacity := by
  have inside := loads.sound.length_le_capacity
  rw [loads.capacity_eq] at inside
  exact Int.le_trans inside loads.capacity_le

/-- The places of the records of a load are lines of its sources, and its ranges lie in the code. -/
theorem record_bounds (loads : Loads catalog capacity reader filenames items image) :
    ∀ entry ∈ image.lines.records,
      0 < entry.source.number ∧
        (codeStart ≤ entry.range.start ∧ entry.range.start ≤ image.length) ∧
          codeStart ≤ entry.range.stop ∧ entry.range.stop ≤ image.length := by
  intro entry member
  have recorded := (records_perm_recordsFrom loads.lines_eq).mem_iff.mp member
  have inside :=
    (tiles_recordsFrom codeStart (filenames.flatMap (sourceLines reader))).bounds.2 entry recorded
  -- The last record stops at the next free address, which is not behind the code.
  have stop_le :
      codeStart + ((retained (rawTokens (filenames.flatMap (sourceLines reader)))).length : Int) ≤
        image.length := by
    rw [rawTokens_sourceLines]
    have reached := loads.nextAddress_le
    rw [Workbench.nextAddress, tokens_surveyed] at reached
    simpa [TokenStream.nextAddress] using reached
  have place : entry.source ∈ (filenames.flatMap (sourceLines reader)).map Prod.fst := by
    rw [← map_source_recordsFrom codeStart]
    exact List.mem_map_of_mem recorded
  rcases List.mem_map.mp place with ⟨line, placed, source_eq⟩
  rcases List.mem_flatMap.mp placed with ⟨filename, _, read⟩
  have positive := number_pos_of_mem_sourceLines read
  rw [source_eq] at positive
  omega

/-- Everything that a load computes itself is in range. -/
theorem isWithinFields (loads : Loads catalog capacity reader filenames items image) :
    Payload.IsWithinFields image := by
  have length_le := loads.length_le_maxCapacity
  have length_ge := loads.sound.codeStart_le_length
  rw [maxCapacity] at length_le
  rw [codeStart] at length_ge
  rcases Payload.usedCode_of_sound loads.sound with ⟨word_count, words⟩
  constructor
  case entry =>
    have bounds := loads.resolvesEntry.bounds
    rw [codeStart] at bounds
    omega
  case length => omega
  case capacity =>
    have capacity_le := loads.capacity_le
    have inside := loads.sound.length_le_capacity
    rw [maxCapacity, ← loads.capacity_eq] at capacity_le
    omega
  case word_count => exact word_count
  case words => exact words
  case label_addresses =>
    intro item member
    have bounds := loads.label_bounds item member
    rw [Word.Fits]
    omega
  case record_ranges =>
    intro entry member
    have bounds := loads.record_bounds entry member
    rw [codeStart] at bounds
    rw [Word.Fits, Word.Fits]
    omega
  case numbers_pos =>
    intro entry member
    exact (loads.record_bounds entry member).1

/-- A loaded image has a payload exactly if its names, line numbers and counts fit. -/
theorem exists_encode?_iff (loads : Loads catalog capacity reader filenames items image) :
    (∃ payload, Payload.encode? image = some payload) ↔ Payload.FitsFields image := by
  rw [← loads.isWithinFields.isWritable_iff]
  constructor
  · rintro ⟨payload, encoded⟩
    exact (Payload.encode?_eq_some_iff.mp encoded).1
  · intro writable
    exact ⟨_, Payload.encode?_eq_some_iff.mpr ⟨writable, rfl⟩⟩

theorem encode?_eq_none_iff (loads : Loads catalog capacity reader filenames items image) :
    Payload.encode? image = none ↔ ¬ Payload.FitsFields image := by
  rw [← loads.exists_encode?_iff, not_exists, Option.eq_none_iff_forall_ne_some]

end Loads

/-- A load writes nothing out of range but what its sources name and number. -/
theorem encodes_iff_fitsFields_of_load
    {catalog : Catalog} {capacity : Int} {assembler : Assembler}
    (created : Assembler.create catalog capacity = .ok assembler)
    {reader : SourceReader} {filenames : List String} {image : Image}
    (loaded : (assembler.load reader filenames).1 = .ok image) :
    ((∃ payload, Payload.encode? image = some payload) ↔ Payload.FitsFields image) ∧
      Payload.IsWithinFields image := by
  rcases (load_eq_ok_iff created).mp loaded with ⟨items, loads⟩
  exact ⟨loads.exists_encode?_iff, loads.isWithinFields⟩

/-- A label with a name of more bytes than letters, and lines without a token. -/
def namedProgram : SourceReader :=
  singleSource "größe.asm" "$ölstand: mov &ölstand -1\n\n~ nothing\n99999999999 entry"

theorem encodes_namedProgram :
    ∃ assembler image payload,
      Assembler.create Catalog.standard 40 = .ok assembler ∧
        (assembler.load namedProgram ["größe.asm", "größe.asm"]).1 = .ok image ∧
          Payload.encode? image = some payload ∧ Payload.IsWithinFields image := by
  have created : Assembler.create Catalog.standard 40 = .ok ⟨Catalog.standard, 40, none⟩ := rfl
  have succeeds :
      ((Assembler.mk Catalog.standard 40 none).load namedProgram
          ["größe.asm", "größe.asm"]).1.toOption.any
        (fun image => decide (Payload.FitsFields image)) = true := by
    decide +kernel
  rcases (Option.any_eq_true _ _).mp succeeds with ⟨image, found, fits⟩
  have loaded := eq_ok_of_toOption found
  rcases encodes_iff_fitsFields_of_load created loaded with ⟨encodes, within⟩
  rcases encodes.mpr (of_decide_eq_true fits) with ⟨payload, encoded⟩
  exact ⟨_, image, payload, created, loaded, encoded, within⟩

end Program

end WordMachine
