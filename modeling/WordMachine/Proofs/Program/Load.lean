import WordMachine.Proofs.Program.Emission
import WordMachine.Proofs.Program.Parse
import WordMachine.Proofs.Program.Source

/-!
# What a load amounts to

A load that gives an image has read every source, has walked over the retained
tokens and has emitted the items of the walk.  `Loads` states this for an
assembler of any catalog, together with the items, and the lemmas below read
the fields of the image off it.
-/

namespace WordMachine

namespace Program

open Workbench

/-- The bench after the first pass. -/
def surveyed (capacity : Int) (reader : SourceReader) (filenames : List String) : Workbench :=
  (Workbench.initial capacity).readLines (filenames.flatMap (sourceLines reader))

/-- The bench after its entry point was checked. -/
def checked (bench : Workbench) : Workbench :=
  if bench.image.entry ≠ codeStart ∧ bench.image.length ≤ bench.image.entry then
    { bench with
      image := bench.image.addWarning
        ⟨(Concern.entryPastEnd bench.image.entry bench.image.length).message, .unknown⟩ }
  else
    bench

/-- Loading the sources gives the image, by way of the items. -/
structure Loads (catalog : Catalog) (capacity : Int) (reader : SourceReader)
    (filenames : List String) (items : List Item) (image : Image) : Prop where
  codeStart_lt : codeStart < capacity
  capacity_le : capacity ≤ maxCapacity
  sources : ∀ filename ∈ filenames, ∃ text, readText reader filename = .ok text
  walk : Walk catalog (surveyed capacity reader filenames).tokens codeStart items
  readable : IsReadable (surveyed capacity reader filenames).image.labels items
  room : codeStart + (items.flatMap Item.parts).length ≤ capacity
  image_eq : image = (checked (items.foldl perform (surveyed capacity reader filenames))).image

/-! ## The bench between the passes -/

theorem surveyed_eq (capacity : Int) (reader : SourceReader) (filenames : List String) :
    ∃ lines,
      surveyed capacity reader filenames =
        ((sourceTokens reader filenames).foldl absorb (Workbench.initial capacity)).withLines
          lines := by
  rw [surveyed, readLines, rawTokens_sourceLines]
  exact ⟨_, rfl⟩

theorem image_surveyed
    (capacity : Int) (reader : SourceReader) (filenames : List String) :
    (surveyed capacity reader filenames).image =
      { Image.blank capacity with
        entry := (surveyed capacity reader filenames).image.entry
        labels := (surveyed capacity reader filenames).image.labels
        lines := (surveyed capacity reader filenames).image.lines } := by
  rcases surveyed_eq capacity reader filenames with ⟨lines, same⟩
  simp only [same, withLines]
  rw [image_foldl_absorb]
  rfl

theorem tokens_surveyed
    (capacity : Int) (reader : SourceReader) (filenames : List String) :
    (surveyed capacity reader filenames).tokens =
      ⟨codeStart, (retained (sourceTokens reader filenames)).toArray⟩ := by
  rcases surveyed_eq capacity reader filenames with ⟨lines, same⟩
  simp [same, withLines, Workbench.initial, TokenStream.empty]

theorem length_surveyed
    (capacity : Int) (reader : SourceReader) (filenames : List String) :
    (surveyed capacity reader filenames).image.length = codeStart := by
  rw [image_surveyed]
  rfl

theorem capacity_surveyed
    (capacity : Int) (reader : SourceReader) (filenames : List String) :
    (surveyed capacity reader filenames).image.capacity = capacity := by
  rw [image_surveyed]
  rfl

theorem lines_surveyed
    (capacity : Int) (reader : SourceReader) (filenames : List String) :
    (surveyed capacity reader filenames).image.lines =
      (recordsFrom codeStart (filenames.flatMap (sourceLines reader))).foldl
        LineTable.record .empty :=
  LineTable.recordAll_eq_foldl _ _

theorem addressed_initial (capacity : Int) : (Workbench.initial capacity).Addressed where
  codeStart_le := Int.le_refl _
  entry_bounds := ⟨Int.le_refl _, Int.le_refl _⟩
  label_bounds := by
    show ∀ item ∈ registers, 1 ≤ item.2 ∧ item.2 ≤ 9
    decide

theorem addressed_surveyed
    (capacity : Int) (reader : SourceReader) (filenames : List String) :
    (surveyed capacity reader filenames).Addressed := by
  rcases surveyed_eq capacity reader filenames with ⟨lines, same⟩
  rcases (addressed_initial capacity).foldl_absorb (sourceTokens reader filenames) with
    ⟨start, entry, labels⟩
  rw [same]
  exact ⟨start, entry, labels⟩

theorem sound_blank {capacity : Int} (large : codeStart < capacity) :
    (Image.blank capacity).Sound where
  codeStart_le_length := Int.le_refl _
  length_le_capacity := Int.le_of_lt large
  size_eq_capacity := by
    rw [codeStart] at large
    simp only [Image.blank, Array.size_replicate]
    omega
  fits := by
    intro word member
    rw [(Array.mem_replicate.mp member).2]
    decide
  blank := by
    intro position inside _
    simp only [Image.blank, Array.size_replicate] at inside ⊢
    simp [inside]

/-- The records of a load are small, because each of them is of a line of a file. -/
theorem isSmallRecord_of_mem_surveyed
    {capacity : Int} {reader : SourceReader} {filenames : List String} {entry : LineRecord}
    (member : entry ∈ (surveyed capacity reader filenames).image.lines.records) :
    IsSmallRecord entry := by
  rw [lines_surveyed] at member
  have recorded := (LineTable.records_foldl_record_perm .empty _).mem_iff.mp member
  apply isSmallRecord_of_mem_recordsFrom ?_ recorded
  intro line inFiles
  rcases List.mem_flatMap.mp inFiles with ⟨filename, _, inFile⟩
  exact isSmall_of_mem_sourceLines inFile

theorem sound_surveyed
    {capacity : Int} (large : codeStart < capacity) (small : capacity ≤ maxCapacity)
    (reader : SourceReader) (filenames : List String) :
    (surveyed capacity reader filenames).Sound where
  toSound := by
    have blank := sound_blank large
    rw [image_surveyed]
    exact ⟨blank.codeStart_le_length, blank.length_le_capacity, blank.size_eq_capacity,
      blank.fits, blank.blank⟩
  capacity_le := by
    rw [capacity_surveyed]
    exact small
  base_le := Int.le_of_eq (by rw [tokens_surveyed, length_surveyed])
  entry_le := (addressed_surveyed capacity reader filenames).entry_bounds.2
  countable _ member := (isSmallRecord_of_mem_surveyed member).countable

/-! ## Loading -/

theorem create_eq_ok_iff
    {catalog : Catalog} {capacity : Int} {assembler : Assembler} :
    Assembler.create catalog capacity = .ok assembler ↔
      codeStart < capacity ∧ capacity ≤ maxCapacity ∧ assembler = ⟨catalog, capacity, none⟩ := by
  simp only [Assembler.create]
  split
  case isTrue small =>
    simp only [reduceCtorEq, false_iff]
    omega
  case isFalse large =>
    split
    case isTrue tooLarge =>
      simp only [reduceCtorEq, false_iff]
      omega
    case isFalse notTooLarge =>
      simp only [Except.ok.injEq]
      constructor
      · rintro rfl
        exact ⟨by omega, by omega, rfl⟩
      · rintro ⟨_, _, rfl⟩
        rfl

/-- The warning about the entry point can be written, because the image is not that large. -/
theorem checkEntry_eq
    {bench : Workbench} (start : codeStart ≤ bench.image.length)
    (small : bench.image.entry ≤ maxCapacity) :
    Assembly.checkEntry bench = .ok () (checked bench) := by
  simp only [Assembly.checkEntry, checked]
  split
  case isTrue past =>
    rw [codeStart] at start
    rw [maxCapacity] at small
    have numbers : ∀ number ∈
        (Concern.entryPastEnd bench.image.entry bench.image.length).numbers,
        Numeral.IsWritable number := by
      rw [Concern.numbers, List.forall_mem_cons, List.forall_mem_singleton]
      constructor
      · apply Numeral.isWritable_of_natAbs_lt
        omega
      · apply Numeral.isWritable_of_natAbs_lt
        omega
    exact Assembly.bind_eq_ok_iff.mpr
      ⟨(), bench, Assembly.checkNumbers_eq_ok_iff.mpr ⟨numbers, rfl⟩, rfl⟩
  case isFalse => rfl

/-- The items of a walk bring the code at least as far as the entry point. -/
theorem entry_le_of_walk
    {catalog : Catalog} {before : Workbench} (sound : before.Sound) {items : List Item}
    (walk : Walk catalog before.tokens before.tokens.base items) :
    before.image.entry ≤ before.image.length + (items.flatMap Item.parts).length := by
  have reached : before.nextAddress ≤ _ := walk.nextAddress_le
  have base := sound.base_le
  have entry := sound.entry_le
  omega

theorem checkEntry_performAll
    {catalog : Catalog} {before : Workbench} (sound : before.Sound) {items : List Item}
    (walk : Walk catalog before.tokens before.tokens.base items)
    (room : before.image.length + (items.flatMap Item.parts).length ≤ before.image.capacity) :
    Assembly.checkEntry (items.foldl perform before) =
      .ok () (checked (items.foldl perform before)) := by
  have entry := entry_le_of_walk sound walk
  have small := sound.capacity_le
  apply checkEntry_eq
  · exact (sound.performAll room).codeStart_le_length
  · rw [(sameProgram_performAll before items).entry_eq]
    omega

theorem assemble_eq_ok_iff
    {catalog : Catalog} {before after : Workbench} (sound : before.Sound) :
    Assembly.assemble catalog before = .ok () after ↔
      ∃ items,
        Walk catalog before.tokens before.tokens.base items ∧
          IsReadable before.image.labels items ∧
            before.image.length + (items.flatMap Item.parts).length ≤ before.image.capacity ∧
              after = checked (items.foldl perform before) := by
  rw [Assembly.assemble, Assembly.bind_eq_ok_iff]
  constructor
  · rintro ⟨_, between, walked, done⟩
    rcases (Assembly.assembleFrom_eq_ok_iff sound rfl).mp walked with
      ⟨items, walk, readable, room, rfl⟩
    rw [checkEntry_performAll sound walk room] at done
    cases done
    exact ⟨items, walk, readable, room, rfl⟩
  · rintro ⟨items, walk, readable, room, rfl⟩
    exact ⟨(), _, (Assembly.assembleFrom_eq_ok_iff sound rfl).mpr
      ⟨items, walk, readable, room, rfl⟩, checkEntry_performAll sound walk room⟩

theorem run_eq_ok_iff
    {catalog : Catalog} {capacity : Int} (large : codeStart < capacity)
    (small : capacity ≤ maxCapacity)
    {reader : SourceReader} {filenames : List String} {after : Workbench} :
    Assembly.run catalog reader filenames (Workbench.initial capacity) = .ok () after ↔
      (∀ filename ∈ filenames, ∃ text, readText reader filename = .ok text) ∧
        ∃ items,
          Walk catalog (surveyed capacity reader filenames).tokens codeStart items ∧
            IsReadable (surveyed capacity reader filenames).image.labels items ∧
              codeStart + (items.flatMap Item.parts).length ≤ capacity ∧
                after =
                  checked (items.foldl perform (surveyed capacity reader filenames)) := by
  have base : (surveyed capacity reader filenames).tokens.base = codeStart := by
    rw [tokens_surveyed]
  have assembled :=
    @assemble_eq_ok_iff catalog _ after (sound_surveyed large small reader filenames)
  rw [base, length_surveyed, capacity_surveyed] at assembled
  rw [Assembly.run, Assembly.bind_eq_ok_iff]
  constructor
  · rintro ⟨_, between, reading, assembling⟩
    rcases Assembly.readSources_eq_ok_iff.mp reading with ⟨sources, rfl⟩
    exact ⟨sources, assembled.mp assembling⟩
  · rintro ⟨sources, items⟩
    exact ⟨(), _, Assembly.readSources_eq_ok_iff.mpr ⟨sources, rfl⟩, assembled.mpr items⟩

/-- A load gives an image exactly when the sources load to it by way of some items. -/
theorem load_eq_ok_iff
    {catalog : Catalog} {capacity : Int} {assembler : Assembler}
    (created : Assembler.create catalog capacity = .ok assembler)
    {reader : SourceReader} {filenames : List String} {image : Image} :
    (assembler.load reader filenames).1 = .ok image ↔
      ∃ items, Loads catalog capacity reader filenames items image := by
  rcases create_eq_ok_iff.mp created with ⟨large, small, rfl⟩
  constructor
  · intro loaded
    simp only [Assembler.load] at loaded
    cases result : Assembly.run catalog reader filenames (Workbench.initial capacity) with
    | error fault bench =>
        rw [result] at loaded
        cases loaded
    | ok _ bench =>
        rw [result] at loaded
        cases loaded
        rcases (run_eq_ok_iff large small).mp result with ⟨sources, items, walk, readable, room, rfl⟩
        exact ⟨items, large, small, sources, walk, readable, room, rfl⟩
  · rintro ⟨items, _, _, sources, walk, readable, room, rfl⟩
    have result := (run_eq_ok_iff large small).mpr ⟨sources, items, walk, readable, room, rfl⟩
    simp only [Assembler.load, result]

/-- A reader that knows one file. -/
def singleSource (known text : String) : SourceReader :=
  .ofContents fun filename =>
    if filename = known then .ok (Text.Utf8.encode text) else .error .noSuchFile

theorem singleSource_known
    {known text : String} (small : (Text.Utf8.encode text).length ≤ maxFileSize) :
    singleSource known text known = .ok (Text.Utf8.encode text) :=
  SourceReader.ofContents_eq_ok_iff.mpr ⟨if_pos rfl, small⟩

theorem eq_ok_of_toOption
    {ε α : Type} {result : Except ε α} {value : α} (found : result.toOption = some value) :
    result = .ok value := by
  cases result with
  | error fault => cases found
  | ok other =>
      cases found
      rfl

/-! ## The image of a load -/

theorem image_checked (bench : Workbench) :
    (checked bench).image =
      { bench.image with warnings := (checked bench).image.warnings } := by
  simp only [checked]
  split
  · rfl
  · rfl

namespace Loads

variable {catalog : Catalog} {capacity : Int} {reader : SourceReader}
  {filenames : List String} {items : List Item} {image : Image}

/-- The image differs in its warnings only from what the items left on the bench. -/
theorem eq_performed (loads : Loads catalog capacity reader filenames items image) :
    image =
      { (items.foldl perform (surveyed capacity reader filenames)).image with
        warnings := image.warnings } := by
  rw [loads.image_eq]
  exact image_checked _

theorem labels_eq (loads : Loads catalog capacity reader filenames items image) :
    image.labels = (surveyed capacity reader filenames).image.labels := by
  rw [loads.eq_performed]
  exact (sameProgram_performAll _ items).labels_eq

theorem entry_eq (loads : Loads catalog capacity reader filenames items image) :
    image.entry = (surveyed capacity reader filenames).image.entry := by
  rw [loads.eq_performed]
  exact (sameProgram_performAll _ items).entry_eq

theorem capacity_eq (loads : Loads catalog capacity reader filenames items image) :
    image.capacity = capacity := by
  rw [loads.eq_performed]
  show (items.foldl perform (surveyed capacity reader filenames)).image.capacity = capacity
  rw [(sameProgram_performAll _ items).capacity_eq, capacity_surveyed]

/-- The records of the image are those of the first pass. -/
theorem isSmallRecord_of_mem_records
    (loads : Loads catalog capacity reader filenames items image)
    {entry : LineRecord} (member : entry ∈ image.lines.records) :
    IsSmallRecord entry := by
  have lines : image.lines = (surveyed capacity reader filenames).image.lines := by
    rw [loads.eq_performed]
    exact (sameProgram_performAll _ items).lines_eq
  rw [lines] at member
  exact isSmallRecord_of_mem_surveyed member

theorem hasCountableLines (loads : Loads catalog capacity reader filenames items image) :
    image.HasCountableLines :=
  fun _ member => (loads.isSmallRecord_of_mem_records member).countable

/-- With arities that are not negative, the items are the parse of the retained tokens. -/
theorem items_eq_parse
    (loads : Loads catalog capacity reader filenames items image)
    (arities : catalog.HasArities) :
    items = parse catalog codeStart (retained (sourceTokens reader filenames)) := by
  have walk := loads.walk
  rw [tokens_surveyed] at walk
  have parsed := @Walk.eq_parse catalog arities
    ⟨codeStart, (retained (sourceTokens reader filenames)).toArray⟩ 0 items (by simpa using walk)
  simpa using parsed

/-- The image has one word behind the registers for each part of the program. -/
theorem length_eq (loads : Loads catalog capacity reader filenames items image) :
    image.length = codeStart + (items.flatMap Item.parts).length := by
  rw [loads.eq_performed]
  show (items.foldl perform (surveyed capacity reader filenames)).image.length = _
  rw [length_performAll, length_surveyed]

/-- The first pass hands out no address behind the code. -/
theorem nextAddress_le (loads : Loads catalog capacity reader filenames items image) :
    (surveyed capacity reader filenames).nextAddress ≤ image.length := by
  rw [loads.length_eq]
  exact loads.walk.nextAddress_le

theorem entry_bounds (loads : Loads catalog capacity reader filenames items image) :
    codeStart ≤ image.entry ∧ image.entry ≤ image.length := by
  have bounds := (addressed_surveyed capacity reader filenames).entry_bounds
  rw [← loads.entry_eq] at bounds
  exact ⟨bounds.1, Int.le_trans bounds.2 loads.nextAddress_le⟩

theorem room_surveyed (loads : Loads catalog capacity reader filenames items image) :
    (surveyed capacity reader filenames).image.length + (items.flatMap Item.parts).length ≤
      (surveyed capacity reader filenames).image.capacity := by
  rw [length_surveyed, capacity_surveyed]
  exact loads.room

theorem sound (loads : Loads catalog capacity reader filenames items image) : image.Sound := by
  have performed : (items.foldl perform (surveyed capacity reader filenames)).Sound :=
    (sound_surveyed loads.codeStart_lt loads.capacity_le reader filenames).performAll
      loads.room_surveyed
  rw [loads.eq_performed]
  exact ⟨performed.codeStart_le_length, performed.length_le_capacity,
    performed.size_eq_capacity, performed.fits, performed.blank⟩

/-- The word of the part at `index` stands that many places behind the registers. -/
theorem code_part
    (loads : Loads catalog capacity reader filenames items image)
    {index : Nat} {part : Part} (found : (items.flatMap Item.parts)[index]? = some part) :
    image.code[9 + index]? = some (Word.wrap (part.number image.labels)) := by
  have written :=
    code_performAll_part
      (sound_surveyed loads.codeStart_lt loads.capacity_le reader filenames)
      loads.room_surveyed found
  rw [length_surveyed] at written
  rw [loads.labels_eq, loads.eq_performed]
  exact written

end Loads

end Program

end WordMachine
