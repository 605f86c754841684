import WordMachine.Assembler
import WordMachine.Proofs.Tables
import WordMachine.Proofs.Text.Utf8
import WordMachine.Proofs.Text.Words

/-!
# What the first pass takes in

The sources of a load are its physical lines that are not blank, file after
file.  Their raw tokens, in order, decide the retained tokens, the label table
and the entry point; the retained tokens alone decide every address.  Reading
the sources leaves exactly this on the bench (`readSources_eq_ok_iff`).
-/

namespace WordMachine

namespace Text

theorem runsFrom_of_separators
    {isSeparator : Char → Bool} {text : List Char} (finished : Array String)
    (separators : ∀ character ∈ text, isSeparator character = true) :
    runsFrom isSeparator finished [] text = finished := by
  induction text with
  | nil => rfl
  | cons character rest tailHolds =>
      rw [List.forall_mem_cons] at separators
      rw [runsFrom, if_pos separators.1]
      exact tailHolds separators.2

end Text

theorem Token.raw_of_isBlankLine
    {line : List Char} (blank : Workbench.isBlankLine line = true) :
    Token.raw line = [] := by
  have separators :
      ∀ character ∈ line.takeWhile (fun character => character != Token.commentMarker),
        Text.isBlank character = true := by
    intro character member
    exact List.all_eq_true.mp blank character (List.takeWhile_subset _ member)
  simp [Token.raw, Text.words, Text.runs, Text.runsFrom_of_separators #[] separators]

namespace Program

/-- The retained tokens among raw tokens. -/
def retained (raw : List String) : List String :=
  raw.filter (fun token => Token.role token = .retained)

/-- A physical line and its place. -/
abbrev PlacedLine := SourceLine × List Char

/-- Place a numbered line of a file, unless it is blank. -/
def placeLine? (filename : String) (numbered : List Char × Nat) : Option PlacedLine :=
  if Workbench.isBlankLine numbered.1 then none
  else some (⟨filename, numbered.2⟩, numbered.1)

/-- The lines of a text that are not blank. -/
def linesOf (filename : String) (text : List Char) : List PlacedLine :=
  ((Text.lines text).zipIdx 1).filterMap (placeLine? filename)

/-- The raw tokens of lines. -/
def rawTokens (lines : List PlacedLine) : List String :=
  lines.flatMap (fun line => Token.raw line.2)

/-- The records of lines whose first retained token stands at `address`. -/
def recordsFrom (address : Int) : List PlacedLine → List LineRecord
  | [] => []
  | line :: rest =>
      let stop := address + (retained (Token.raw line.2)).length
      ⟨line.1, ⟨address, stop⟩⟩ :: recordsFrom stop rest

/-- The text of a source file, or why it cannot be read. -/
def readText (reader : SourceReader) (filename : String) : Except AssemblyFault (List Char) :=
  if holdsNul filename then
    .error .nulInFileName
  else
    match reader filename with
    | .error fault => .error (.unreadableSource filename (.file fault))
    | .ok bytes =>
        match Text.Utf8.decode bytes with
        | .error fault => .error (.unreadableSource filename (.text (fault.inStream bytes)))
        | .ok text => .ok text

/-- The lines of a source file; a file that cannot be read has none. -/
def sourceLines (reader : SourceReader) (filename : String) : List PlacedLine :=
  match readText reader filename with
  | .error _ => []
  | .ok text => linesOf filename text

/-- The raw tokens of source files in order; a file that cannot be read has none. -/
def sourceTokens (reader : SourceReader) (filenames : List String) : List String :=
  filenames.flatMap fun filename =>
    match readText reader filename with
    | .error _ => []
    | .ok text => (Text.lines text).flatMap Token.raw

theorem isWord_of_mem_sourceTokens
    {reader : SourceReader} {filenames : List String} {token : String}
    (member : token ∈ sourceTokens reader filenames) :
    Text.IsWord token := by
  rcases List.mem_flatMap.mp member with ⟨filename, _, inFile⟩
  cases text : readText reader filename with
  | error fault =>
      rw [text] at inFile
      cases inFile
  | ok characters =>
      rw [text] at inFile
      rcases List.mem_flatMap.mp inFile with ⟨line, _, inLine⟩
      exact Text.isWord_of_mem_words inLine

theorem rawTokens_filterMap_placeLine? (filename : String) (numbered : List (List Char × Nat)) :
    rawTokens (numbered.filterMap (placeLine? filename)) =
      (numbered.map Prod.fst).flatMap Token.raw := by
  induction numbered with
  | nil => rfl
  | cons line rest tailHolds =>
      rw [List.map_cons, List.flatMap_cons, ← tailHolds]
      by_cases blank : Workbench.isBlankLine line.1 = true
      · rw [Token.raw_of_isBlankLine blank]
        simp [placeLine?, blank]
      · simp [placeLine?, blank, rawTokens]

/-- Leaving out blank lines loses no token. -/
theorem rawTokens_sourceLines (reader : SourceReader) (filenames : List String) :
    rawTokens (filenames.flatMap (sourceLines reader)) = sourceTokens reader filenames := by
  induction filenames with
  | nil => rfl
  | cons filename rest tailHolds =>
      rw [sourceTokens, List.flatMap_cons, List.flatMap_cons, rawTokens, List.flatMap_append]
      congr 1
      rw [sourceLines]
      cases readText reader filename with
      | error fault => rfl
      | ok text =>
          have tokens := rawTokens_filterMap_placeLine? filename ((Text.lines text).zipIdx 1)
          rw [List.zipIdx_map_fst] at tokens
          exact tokens

/-! ## Sizes -/

theorem length_le_of_readText
    {reader : SourceReader} {filename : String} {text : List Char}
    (found : readText reader filename = .ok text) :
    text.length ≤ maxFileSize := by
  rw [readText] at found
  split at found
  · cases found
  · cases opened : reader filename with
    | error fault =>
        rw [opened] at found
        cases found
    | ok bytes =>
        rw [opened] at found
        cases decoded : Text.Utf8.decode bytes with
        | error fault =>
            simp only [decoded] at found
            cases found
        | ok characters =>
            simp only [decoded] at found
            cases found
            exact Nat.le_trans (Text.Utf8.length_le_of_decode decoded) (reader.length_le opened)

/-- A line whose tokens and whose number are counted as the bytes of a file are. -/
structure PlacedLine.IsSmall (line : PlacedLine) : Prop where
  tokens_le : (Token.raw line.2).length ≤ maxFileSize
  number_pos : 0 < line.1.number
  number_le : line.1.number ≤ maxFileSize

theorem isSmall_of_mem_linesOf
    {filename : String} {text : List Char} (small : text.length ≤ maxFileSize)
    {line : PlacedLine} (member : line ∈ linesOf filename text) :
    line.IsSmall := by
  rcases List.mem_filterMap.mp member with ⟨⟨characters, number⟩, numbered, placed⟩
  rw [placeLine?] at placed
  split at placed
  · cases placed
  · cases placed
    rcases List.mem_zipIdx numbered with ⟨low, high, found⟩
    have inText : characters ∈ Text.lines text := by
      rw [found]
      exact List.getElem_mem _
    have tokens := Token.length_raw_le characters
    have width := Text.length_le_of_mem_lines inText
    have lines := Text.length_lines_le text
    constructor
    · exact Nat.le_trans tokens (Nat.le_trans width small)
    · show (0 : Int) < number
      omega
    · show (number : Int) ≤ maxFileSize
      omega

/-- Every line of a file is small, because the file is. -/
theorem isSmall_of_mem_sourceLines
    {reader : SourceReader} {filename : String} {line : PlacedLine}
    (member : line ∈ sourceLines reader filename) :
    line.IsSmall := by
  rw [sourceLines] at member
  cases found : readText reader filename with
  | error fault =>
      rw [found] at member
      cases member
  | ok text =>
      rw [found] at member
      exact isSmall_of_mem_linesOf (length_le_of_readText found) member

/-- A record has the place of its line, and an address for each of its retained tokens. -/
theorem exists_line_of_mem_recordsFrom
    {address : Int} {lines : List PlacedLine} {entry : LineRecord}
    (member : entry ∈ recordsFrom address lines) :
    ∃ line ∈ lines,
      entry.source = line.1 ∧
        entry.range.stop = entry.range.start + (retained (Token.raw line.2)).length := by
  induction lines generalizing address with
  | nil => cases member
  | cons line rest tailHolds =>
      rcases List.mem_cons.mp member with rfl | later
      · exact ⟨line, List.mem_cons_self, rfl, rfl⟩
      · rcases tailHolds later with ⟨other, inRest, holds⟩
        exact ⟨other, List.mem_cons_of_mem line inRest, holds⟩

/-- The record of a small line can be consulted and shown. -/
structure IsSmallRecord (entry : LineRecord) : Prop where
  countable : entry.range.IsCountable
  number_pos : 0 < entry.source.number
  number_le : entry.source.number ≤ maxFileSize

theorem isSmallRecord_of_mem_recordsFrom
    {lines : List PlacedLine} (small : ∀ line ∈ lines, line.IsSmall)
    {address : Int} {entry : LineRecord} (member : entry ∈ recordsFrom address lines) :
    IsSmallRecord entry := by
  rcases exists_line_of_mem_recordsFrom member with ⟨line, inLines, place, stop⟩
  rcases small line inLines with ⟨tokens, number_pos, number_le⟩
  have kept : (retained (Token.raw line.2)).length ≤ (Token.raw line.2).length :=
    List.length_filter_le _ _
  rw [← place] at number_pos number_le
  refine ⟨?_, number_pos, number_le⟩
  have limit : (maxFileSize : Int) = AddressRange.maxLength := by decide
  rw [AddressRange.IsCountable, stop]
  omega

end Program

namespace Workbench

open Program

/-! ## Absorbing tokens -/

@[simp]
theorem tokens_foldl_absorb (bench : Workbench) (raw : List String) :
    (raw.foldl absorb bench).tokens =
      ⟨bench.tokens.base, bench.tokens.tokens ++ (retained raw).toArray⟩ := by
  induction raw generalizing bench with
  | nil => simp [retained]
  | cons token rest tailHolds =>
      rw [List.foldl_cons, tailHolds]
      cases role : Token.role token with
      | definition => simp [absorb, role, register, retained]
      | entry => simp [absorb, role, retained]
      | retained => simp [absorb, role, retained, TokenStream.append]

theorem nextAddress_foldl_absorb (bench : Workbench) (raw : List String) :
    (raw.foldl absorb bench).nextAddress = bench.nextAddress + (retained raw).length := by
  simp [nextAddress, TokenStream.nextAddress]
  omega

/-- The bench with other line records. -/
def withLines (bench : Workbench) (lines : LineTable) : Workbench :=
  { bench with image := { bench.image with lines := lines } }

theorem absorb_withLines (bench : Workbench) (lines : LineTable) (token : String) :
    (bench.withLines lines).absorb token = (bench.absorb token).withLines lines := by
  simp only [absorb]
  cases Token.role token with
  | definition => rfl
  | entry => rfl
  | retained => rfl

theorem foldl_absorb_withLines
    (bench : Workbench) (lines : LineTable) (raw : List String) :
    raw.foldl absorb (bench.withLines lines) = (raw.foldl absorb bench).withLines lines := by
  induction raw generalizing bench with
  | nil => rfl
  | cons token rest tailHolds =>
      rw [List.foldl_cons, List.foldl_cons, absorb_withLines, tailHolds]

/-- Absorbing tokens changes labels and entry of the image and nothing else. -/
theorem image_foldl_absorb (bench : Workbench) (raw : List String) :
    (raw.foldl absorb bench).image =
      { bench.image with
        entry := (raw.foldl absorb bench).image.entry
        labels := (raw.foldl absorb bench).image.labels } := by
  induction raw generalizing bench with
  | nil => rfl
  | cons token rest tailHolds =>
      rw [List.foldl_cons, tailHolds]
      cases role : Token.role token with
      | definition => simp [absorb, role, register]
      | entry => simp [absorb, role]
      | retained => simp [absorb, role]

/-! ## Labels and entry point -/

/-- Tokens that do not define a label leave its binding as it is. -/
theorem find?_foldl_absorb_of_absent
    {raw : List String} {query : String} (bench : Workbench)
    (absent : ∀ token ∈ raw, Token.role token = .definition →
      Label.normalize token ≠ Label.normalize query) :
    (raw.foldl absorb bench).image.labels.find? query = bench.image.labels.find? query := by
  induction raw generalizing bench with
  | nil => rfl
  | cons token rest tailHolds =>
      rw [List.forall_mem_cons] at absent
      rw [List.foldl_cons, tailHolds _ absent.2]
      cases role : Token.role token with
      | definition =>
          have differs := Ne.symm (absent.1 role)
          simp [absorb, role, register, LabelTable.find?_register, differs]
      | entry => simp [absorb, role]
      | retained => simp [absorb, role]

/-- The last definition of a label binds it to the address of the next retained token. -/
theorem find?_foldl_absorb_of_last
    {earlier later : List String} {definition query : String} (bench : Workbench)
    (role : Token.role definition = .definition)
    (same : Label.normalize definition = Label.normalize query)
    (last : ∀ token ∈ later, Token.role token = .definition →
      Label.normalize token ≠ Label.normalize query) :
    ((earlier ++ definition :: later).foldl absorb bench).image.labels.find? query =
      some (bench.nextAddress + (retained earlier).length) := by
  rw [List.foldl_append, List.foldl_cons, find?_foldl_absorb_of_absent _ last]
  simp [absorb, role, register, LabelTable.find?_register, same, nextAddress_foldl_absorb]

theorem entry_foldl_absorb_of_absent
    {raw : List String} (bench : Workbench)
    (absent : ∀ token ∈ raw, Token.role token ≠ .entry) :
    (raw.foldl absorb bench).image.entry = bench.image.entry := by
  induction raw generalizing bench with
  | nil => rfl
  | cons token rest tailHolds =>
      rw [List.forall_mem_cons] at absent
      rw [List.foldl_cons, tailHolds _ absent.2]
      cases role : Token.role token with
      | definition => simp [absorb, role, register]
      | entry => exact (absent.1 role).elim
      | retained => simp [absorb, role]

theorem entry_foldl_absorb_of_last
    {earlier later : List String} {directive : String} (bench : Workbench)
    (role : Token.role directive = .entry)
    (last : ∀ token ∈ later, Token.role token ≠ .entry) :
    ((earlier ++ directive :: later).foldl absorb bench).image.entry =
      bench.nextAddress + (retained earlier).length := by
  rw [List.foldl_append, List.foldl_cons, entry_foldl_absorb_of_absent _ last]
  simp only [absorb, role]
  exact nextAddress_foldl_absorb bench earlier

/-- Labels and entry point of a bench lie between the registers and the next token. -/
structure Addressed (bench : Workbench) : Prop where
  codeStart_le : codeStart ≤ bench.nextAddress
  entry_bounds : codeStart ≤ bench.image.entry ∧ bench.image.entry ≤ bench.nextAddress
  label_bounds : ∀ item ∈ bench.image.labels.items, 1 ≤ item.2 ∧ item.2 ≤ bench.nextAddress

theorem Addressed.absorb {bench : Workbench} (addressed : bench.Addressed) (token : String) :
    (bench.absorb token).Addressed := by
  rcases addressed with ⟨start, entry, labels⟩
  have positive : 1 ≤ bench.nextAddress := by
    rw [codeStart] at start
    omega
  cases role : Token.role token with
  | definition =>
      simp only [Workbench.absorb, role]
      refine ⟨start, entry, ?_⟩
      intro item member
      rcases Roster.mem_entries_insert member with rfl | old
      · exact ⟨positive, Int.le_refl _⟩
      · exact labels item old
  | entry =>
      simp only [Workbench.absorb, role]
      exact ⟨start, ⟨start, Int.le_refl _⟩, labels⟩
  | retained =>
      simp only [Workbench.absorb, role]
      have next :
          ({ bench with tokens := bench.tokens.append token } : Workbench).nextAddress =
            bench.nextAddress + 1 :=
        TokenStream.nextAddress_append bench.tokens token
      refine ⟨?_, ⟨entry.1, ?_⟩, ?_⟩
      · rw [next]
        omega
      · rw [next]
        exact Int.le_add_one entry.2
      · intro item member
        rw [next]
        exact ⟨(labels item member).1, Int.le_add_one (labels item member).2⟩

theorem Addressed.foldl_absorb
    {bench : Workbench} (addressed : bench.Addressed) (raw : List String) :
    (raw.foldl Workbench.absorb bench).Addressed := by
  induction raw generalizing bench with
  | nil => exact addressed
  | cons token rest tailHolds => exact tailHolds (addressed.absorb token)

/-- Every label was there before or is defined by a token. -/
theorem mem_names_foldl_absorb
    {bench : Workbench} {raw : List String} {name : String}
    (member : name ∈ (raw.foldl absorb bench).image.labels.names) :
    name ∈ bench.image.labels.names ∨ ∃ token ∈ raw, name = Label.normalize token := by
  induction raw generalizing bench with
  | nil => exact .inl member
  | cons token rest tailHolds =>
      rcases tailHolds member with absorbed | ⟨later, inRest, named⟩
      · cases role : Token.role token with
        | definition =>
            simp only [absorb, role] at absorbed
            rcases List.mem_map.mp absorbed with ⟨item, inTable, rfl⟩
            rcases Roster.mem_entries_insert inTable with rfl | old
            · exact .inr ⟨token, List.mem_cons_self, rfl⟩
            · exact .inl (List.mem_map_of_mem old)
        | entry =>
            simp only [absorb, role] at absorbed
            exact .inl absorbed
        | retained =>
            simp only [absorb, role] at absorbed
            exact .inl absorbed
      · exact .inr ⟨later, List.mem_cons_of_mem token inRest, named⟩

/-! ## Reading lines -/

/-- The bench after lines were read. -/
def readLines (bench : Workbench) (lines : List PlacedLine) : Workbench :=
  ((rawTokens lines).foldl absorb bench).withLines
    (bench.image.lines.recordAll (recordsFrom bench.nextAddress lines))

theorem recordsFrom_append (address : Int) (lines more : List PlacedLine) :
    recordsFrom address (lines ++ more) =
      recordsFrom address lines ++
        recordsFrom (address + (retained (rawTokens lines)).length) more := by
  induction lines generalizing address with
  | nil => simp [recordsFrom, rawTokens, retained]
  | cons line rest tailHolds =>
      simp only [List.cons_append, recordsFrom, tailHolds, rawTokens, List.flatMap_cons, retained,
        List.filter_append, List.length_append]
      congr 3
      omega

theorem readLines_append (bench : Workbench) (lines more : List PlacedLine) :
    bench.readLines (lines ++ more) = (bench.readLines lines).readLines more := by
  have start :
      (bench.readLines lines).nextAddress =
        bench.nextAddress + (retained (rawTokens lines)).length :=
    nextAddress_foldl_absorb bench (rawTokens lines)
  rw [readLines, recordsFrom_append, LineTable.recordAll_eq_foldl, List.foldl_append]
  rw [readLines, start]
  simp only [readLines, foldl_absorb_withLines, rawTokens, List.flatMap_append,
    List.foldl_append, LineTable.recordAll_eq_foldl]
  rfl

theorem foldl_surveyLine
    (filename : String) (numbered : List (List Char × Nat))
    (bench : Workbench) (entries : Array LineRecord) :
    numbered.foldl (surveyLine filename) (bench, entries) =
      ((rawTokens (numbered.filterMap (placeLine? filename))).foldl absorb bench,
        entries ++
          (recordsFrom bench.nextAddress
            (numbered.filterMap (placeLine? filename))).toArray) := by
  induction numbered generalizing bench entries with
  | nil => simp [rawTokens, recordsFrom]
  | cons line rest tailHolds =>
      rw [List.foldl_cons]
      by_cases blank : isBlankLine line.1 = true
      · rw [surveyLine, if_pos blank, tailHolds]
        simp [placeLine?, blank]
      · rw [surveyLine, if_neg blank, tailHolds]
        have stop := nextAddress_foldl_absorb bench (Token.raw line.1)
        simp only [tokenize, stop, List.filterMap_cons, placeLine?, blank, rawTokens,
          List.flatMap_cons, List.foldl_append, recordsFrom, Bool.false_eq_true, if_false]
        simp

theorem survey_eq_readLines (bench : Workbench) (filename : String) (text : List Char) :
    bench.survey filename text = bench.readLines (linesOf filename text) := by
  simp only [survey, foldl_surveyLine, readLines, linesOf]
  have lines :
      ((rawTokens (((Text.lines text).zipIdx 1).filterMap
        (placeLine? filename))).foldl absorb bench).image.lines = bench.image.lines := by
    rw [image_foldl_absorb]
  rw [lines]
  simp [withLines]

end Workbench

namespace Assembly

open Program Workbench

/-! ## Reading sources -/

/-- A file is taken in as far as its text can be read. -/
theorem readSource_eq (reader : SourceReader) (filename : String) (before : Workbench) :
    readSource reader filename before =
      match readText reader filename with
      | .error fault => .error fault before
      | .ok text => .ok () (before.survey filename text) := by
  simp only [readSource, readText]
  split
  · rfl
  · cases reader filename with
    | error fault => rfl
    | ok bytes =>
        simp only
        cases Text.Utf8.decode bytes with
        | error fault => rfl
        | ok text => rfl

theorem readSource_eq_ok_iff
    {reader : SourceReader} {filename : String} {before after : Workbench} :
    readSource reader filename before = .ok () after ↔
      (∃ text, readText reader filename = .ok text) ∧
        after = before.readLines (sourceLines reader filename) := by
  rw [readSource_eq, sourceLines]
  cases readText reader filename with
  | error fault => simp
  | ok text => simp [survey_eq_readLines, eq_comm]

/-- Reading succeeds exactly when every file is readable, and reads all their lines in order. -/
theorem readSources_eq_ok_iff
    {reader : SourceReader} {filenames : List String} {before after : Workbench} :
    readSources reader filenames before = .ok () after ↔
      (∀ filename ∈ filenames, ∃ text, readText reader filename = .ok text) ∧
        after = before.readLines (filenames.flatMap (sourceLines reader)) := by
  induction filenames generalizing before with
  | nil =>
      have nothing : before.readLines [] = before := rfl
      simp [readSources, pure_eq_ok_iff, nothing, eq_comm]
  | cons filename rest tailHolds =>
      rw [readSources, bind_eq_ok_iff, List.forall_mem_cons, List.flatMap_cons,
        readLines_append]
      constructor
      · rintro ⟨_, _, first, others⟩
        rcases readSource_eq_ok_iff.mp first with ⟨readable, rfl⟩
        rcases tailHolds.mp others with ⟨othersReadable, rfl⟩
        exact ⟨⟨readable, othersReadable⟩, rfl⟩
      · rintro ⟨⟨readable, othersReadable⟩, rfl⟩
        exact ⟨(), _, readSource_eq_ok_iff.mpr ⟨readable, rfl⟩,
          tailHolds.mpr ⟨othersReadable, rfl⟩⟩

end Assembly

end WordMachine
