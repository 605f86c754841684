import WordMachine.Proofs.Program.Load

/-!
# Lines and the addresses of their tokens

The records of a load, in the order in which they are made, tile the addresses
of the retained tokens: each record starts where the one before it stops.  The
table keeps the readings of a line together and so lists its records in another
order, but which records hold an address does not depend on the order.  Exactly
one does for the address of a token, namely the record of the line on which the
token was read.
-/

namespace WordMachine

theorem LineTable.atAddress?_eq_head?_filter (table : LineTable) (address : Int) :
    table.atAddress? address =
      (table.records.filter (fun entry => entry.range.contains address)).head? := by
  rw [atAddress?_eq_find?_records, List.head?_filter]

namespace Program

/-! ## Tokens and their lines -/

/-- The retained tokens of tagged lines, each with the tag of its line. -/
def taggedTokens {τ : Type} (lines : List (τ × List Char)) : List (String × τ) :=
  lines.flatMap (fun line => (retained (Token.raw line.2)).map (fun token => (token, line.1)))

theorem taggedTokens_cons {τ : Type} (line : τ × List Char) (rest : List (τ × List Char)) :
    taggedTokens (line :: rest) =
      (retained (Token.raw line.2)).map (fun token => (token, line.1)) ++ taggedTokens rest :=
  List.flatMap_cons

/-- What the tokens are does not depend on the tags. -/
theorem map_fst_taggedTokens {τ : Type} (lines : List (τ × List Char)) :
    (taggedTokens lines).map Prod.fst =
      retained (lines.flatMap (fun line => Token.raw line.2)) := by
  induction lines with
  | nil => rfl
  | cons line rest tailHolds =>
      rw [taggedTokens_cons, List.map_append, tailHolds, List.flatMap_cons]
      simp [retained, Function.comp_def]

theorem length_taggedTokens (lines : List PlacedLine) :
    (taggedTokens lines).length = (retained (rawTokens lines)).length := by
  rw [rawTokens, ← map_fst_taggedTokens, List.length_map]

theorem exists_source_of_getElem?
    {lines : List PlacedLine} {index : Nat} {token : String}
    (found : (retained (rawTokens lines))[index]? = some token) :
    ∃ source, (taggedTokens lines)[index]? = some (token, source) := by
  rw [rawTokens, ← map_fst_taggedTokens, List.getElem?_map] at found
  rcases Option.map_eq_some_iff.mp found with ⟨⟨_, source⟩, tagged, rfl⟩
  exact ⟨source, tagged⟩

/-! ## Records that tile addresses -/

/-- Records that start at `start`, each where the one before it stops, and stop at `stop`. -/
def Tiles (start stop : Int) : List LineRecord → Prop
  | [] => start = stop
  | entry :: rest =>
      entry.range.start = start ∧ start ≤ entry.range.stop ∧ Tiles entry.range.stop stop rest

/-- The number of addresses that a line takes up. -/
def PlacedLine.size (line : PlacedLine) : Nat :=
  (retained (Token.raw line.2)).length

/-- The record of a line whose first retained token stands at `address`. -/
def PlacedLine.recordAt (line : PlacedLine) (address : Int) : LineRecord :=
  ⟨line.1, ⟨address, address + line.size⟩⟩

theorem PlacedLine.contains_recordAt_iff (line : PlacedLine) (start address : Int) :
    (line.recordAt start).range.contains address = true ↔
      start ≤ address ∧ address < start + line.size :=
  AddressRange.contains_iff _ _

theorem recordsFrom_cons (address : Int) (line : PlacedLine) (rest : List PlacedLine) :
    recordsFrom address (line :: rest) =
      line.recordAt address :: recordsFrom (address + line.size) rest :=
  rfl

theorem length_retained_rawTokens_cons (line : PlacedLine) (rest : List PlacedLine) :
    (retained (rawTokens (line :: rest))).length =
      line.size + (retained (rawTokens rest)).length := by
  simp [rawTokens, retained, PlacedLine.size]

theorem tiles_recordsFrom (address : Int) (lines : List PlacedLine) :
    Tiles address (address + (retained (rawTokens lines)).length)
      (recordsFrom address lines) := by
  induction lines generalizing address with
  | nil => simp [recordsFrom, Tiles, rawTokens, retained]
  | cons line rest tailHolds =>
      have total :
          address + ((retained (rawTokens (line :: rest))).length : Int) =
            address + line.size + (retained (rawTokens rest)).length := by
        rw [length_retained_rawTokens_cons]
        omega
      rw [recordsFrom_cons, total]
      exact ⟨rfl, Int.le_add_of_nonneg_right (Int.natCast_nonneg _), tailHolds _⟩

theorem map_source_recordsFrom (address : Int) (lines : List PlacedLine) :
    (recordsFrom address lines).map LineRecord.source = lines.map Prod.fst := by
  induction lines generalizing address with
  | nil => rfl
  | cons line rest tailHolds =>
      rw [recordsFrom_cons, List.map_cons, List.map_cons, tailHolds]
      rfl

/-- The lines, each tagged with the record that was made of it. -/
def recordedLines (history : List LineRecord) (lines : List PlacedLine) :
    List (LineRecord × List Char) :=
  history.zip (lines.map Prod.snd)

theorem taggedTokens_recordedLines_cons
    (address : Int) (line : PlacedLine) (rest : List PlacedLine) :
    taggedTokens (recordedLines (recordsFrom address (line :: rest)) (line :: rest)) =
      (retained (Token.raw line.2)).map (fun token => (token, line.recordAt address)) ++
        taggedTokens (recordedLines (recordsFrom (address + line.size) rest) rest) :=
  taggedTokens_cons (line.recordAt address, line.2) _

/-- Tagged with the places of the records, the tokens are those of the lines as placed. -/
theorem map_source_taggedTokens (address : Int) (lines : List PlacedLine) :
    (taggedTokens (recordedLines (recordsFrom address lines) lines)).map
        (fun token => (token.1, token.2.source)) =
      taggedTokens lines := by
  induction lines generalizing address with
  | nil => rfl
  | cons line rest tailHolds =>
      rw [taggedTokens_recordedLines_cons, List.map_append, tailHolds, List.map_map,
        taggedTokens_cons]
      rfl

/-- The tokens tagged with the records of their lines are the retained tokens. -/
theorem map_fst_taggedTokens_recordedLines (address : Int) (lines : List PlacedLine) :
    (taggedTokens (recordedLines (recordsFrom address lines) lines)).map Prod.fst =
      retained (rawTokens lines) := by
  have tokens := congrArg (List.map Prod.fst) (map_source_taggedTokens address lines)
  rw [List.map_map, map_fst_taggedTokens] at tokens
  exact tokens

/-- No record holds an address before the first. -/
theorem filter_recordsFrom_of_lt
    {start address : Int} (before : address < start) (lines : List PlacedLine) :
    (recordsFrom start lines).filter (fun entry => entry.range.contains address) = [] := by
  induction lines generalizing start with
  | nil => rfl
  | cons line rest tailHolds =>
      have outside : ¬ (line.recordAt start).range.contains address = true := by
        rw [PlacedLine.contains_recordAt_iff]
        omega
      rw [recordsFrom_cons, List.filter_cons, if_neg outside]
      exact tailHolds (by omega)

/--
The record of its line is the only one that holds the address of a token.  The
induction is on the lines: a token is on the first line, or its index counts on
behind the tokens of that line.
-/
theorem filter_recordsFrom (start : Int) (lines : List PlacedLine) (index : Nat) :
    (recordsFrom start lines).filter (fun entry => entry.range.contains (start + index)) =
      ((taggedTokens (recordedLines (recordsFrom start lines) lines))[index]?.map
        Prod.snd).toList := by
  induction lines generalizing start index with
  | nil => rfl
  | cons line rest tailHolds =>
      have holds := line.contains_recordAt_iff start (start + index)
      rw [taggedTokens_recordedLines_cons, recordsFrom_cons, List.filter_cons]
      by_cases onLine : index < line.size
      · have inside := holds.mpr (by omega)
        rw [if_pos inside, filter_recordsFrom_of_lt (by omega),
          List.getElem?_append_left (by rw [List.length_map]; exact onLine), List.getElem?_map,
          List.getElem?_eq_getElem onLine]
        rfl
      · have outside := mt holds.mp (by omega)
        have further : start + (index : Int) = start + line.size + (index - line.size : Nat) := by
          omega
        rw [if_neg outside, further, tailHolds,
          List.getElem?_append_right (by rw [List.length_map]; exact Nat.not_lt.mp onLine),
          List.length_map]
        rfl

/-! ## The line table of a load -/

/--
The line table of an image, whose records were made in the order of `history`,
partitions the addresses of the tokens on the lines.
-/
structure PartitionsCode (lines : List PlacedLine) (history : List LineRecord) (image : Image) :
    Prop where
  lines_eq : image.lines = history.foldl LineTable.record .empty
  /-- There is one record for each reading of a line, with the place of the line. -/
  sources_eq : history.map LineRecord.source = lines.map Prod.fst
  /-- In the order of recording the records tile the addresses of the tokens. -/
  tiles : Tiles codeStart (codeStart + (retained (rawTokens lines)).length) history
  /-- The table lists the same records, each as often, in an order of its own. -/
  perm : image.lines.records.Perm history
  found_iff : ∀ address : Int,
    (∃ entry, image.lines.atAddress? address = some entry) ↔
      codeStart ≤ address ∧ address < codeStart + (retained (rawTokens lines)).length
  /-- What is found is the only record in the table that holds the address. -/
  only : ∀ (address : Int) (entry : LineRecord), image.lines.atAddress? address = some entry →
    image.lines.records.filter (fun other => other.range.contains address) = [entry]
  /-- It is the record of the line on which the token at the address was read. -/
  of_token : ∀ (index : Nat) (token : String), (retained (rawTokens lines))[index]? = some token →
    ∃ entry,
      (taggedTokens (recordedLines history lines))[index]? = some (token, entry) ∧
        image.lines.atAddress? (codeStart + index) = some entry

/-- Lists that are permutations of each other are equal if one of them has at most one element. -/
theorem eq_toList_of_perm {α : Type} {list : List α} {only : Option α}
    (perm : list.Perm only.toList) :
    list = only.toList := by
  cases only with
  | none => exact List.perm_nil.mp perm
  | some element => exact List.perm_singleton.mp perm

section

variable {lines : List PlacedLine} {image : Image}
  (recorded : image.lines = (recordsFrom codeStart lines).foldl LineTable.record .empty)

include recorded

theorem records_perm_recordsFrom : image.lines.records.Perm (recordsFrom codeStart lines) := by
  rw [recorded]
  exact LineTable.records_foldl_record_perm .empty _

/-- The records of the table that hold the address of a token. -/
theorem filter_records (index : Nat) :
    image.lines.records.filter (fun entry => entry.range.contains (codeStart + index)) =
      ((taggedTokens (recordedLines (recordsFrom codeStart lines) lines))[index]?.map
        Prod.snd).toList := by
  apply eq_toList_of_perm
  rw [← filter_recordsFrom]
  exact (records_perm_recordsFrom recorded).filter _

theorem atAddress?_codeStart_add (index : Nat) :
    image.lines.atAddress? (codeStart + index) =
      (taggedTokens (recordedLines (recordsFrom codeStart lines) lines))[index]?.map
        Prod.snd := by
  rw [LineTable.atAddress?_eq_head?_filter, filter_records recorded, Option.head?_toList]

/-- The address of a token leads to the place of the line it was read on. -/
theorem exists_atAddress?_of_taggedTokens
    {index : Nat} {token : String} {source : SourceLine}
    (tagged : (taggedTokens lines)[index]? = some (token, source)) :
    ∃ entry,
      image.lines.atAddress? (codeStart + index) = some entry ∧ entry.source = source := by
  rw [← map_source_taggedTokens codeStart, List.getElem?_map] at tagged
  rcases Option.map_eq_some_iff.mp tagged with ⟨⟨_, entry⟩, found, same⟩
  cases same
  exact ⟨entry, by rw [atAddress?_codeStart_add recorded, found]; rfl, rfl⟩

theorem atAddress?_of_lt {address : Int} (before : address < codeStart) :
    image.lines.atAddress? address = none := by
  have holding :
      image.lines.records.filter (fun entry => entry.range.contains address) = [] := by
    have perm := (records_perm_recordsFrom recorded).filter
      (fun entry => entry.range.contains address)
    rw [filter_recordsFrom_of_lt before] at perm
    exact List.perm_nil.mp perm
  rw [LineTable.atAddress?_eq_head?_filter, holding]
  rfl

/-- An address at which a record is found is that of a token. -/
theorem exists_index_of_atAddress? {address : Int} {entry : LineRecord}
    (found : image.lines.atAddress? address = some entry) :
    ∃ index : Nat, address = codeStart + index := by
  have reached : codeStart ≤ address := by
    apply Int.not_lt.mp
    intro before
    rw [atAddress?_of_lt recorded before] at found
    cases found
  rcases Int.le.dest reached with ⟨index, place⟩
  exact ⟨index, place.symm⟩

theorem partitionsCode_recordsFrom :
    PartitionsCode lines (recordsFrom codeStart lines) image where
  lines_eq := recorded
  sources_eq := map_source_recordsFrom codeStart lines
  tiles := tiles_recordsFrom codeStart lines
  perm := records_perm_recordsFrom recorded
  found_iff := by
    intro address
    have count := congrArg List.length (map_fst_taggedTokens_recordedLines codeStart lines)
    rw [List.length_map] at count
    constructor
    · rintro ⟨entry, found⟩
      rcases exists_index_of_atAddress? recorded found with ⟨index, rfl⟩
      rw [atAddress?_codeStart_add recorded] at found
      rcases Option.map_eq_some_iff.mp found with ⟨_, tagged, _⟩
      have inside := (List.getElem?_eq_some_iff.mp tagged).1
      omega
    · rintro ⟨reached, inside⟩
      rcases Int.le.dest reached with ⟨index, rfl⟩
      rw [atAddress?_codeStart_add recorded, List.getElem?_eq_getElem (by omega)]
      exact ⟨_, rfl⟩
  only := by
    intro address entry found
    rcases exists_index_of_atAddress? recorded found with ⟨index, rfl⟩
    rw [atAddress?_codeStart_add recorded] at found
    rw [filter_records recorded, found]
    rfl
  of_token := by
    intro index token here
    rw [← map_fst_taggedTokens_recordedLines codeStart, List.getElem?_map] at here
    rcases Option.map_eq_some_iff.mp here with ⟨⟨_, entry⟩, tagged, rfl⟩
    exact ⟨entry, tagged, by rw [atAddress?_codeStart_add recorded, tagged]; rfl⟩

end

theorem Loads.lines_eq
    {catalog : Catalog} {capacity : Int} {reader : SourceReader}
    {filenames : List String} {items : List Item} {image : Image}
    (loads : Loads catalog capacity reader filenames items image) :
    image.lines =
      (recordsFrom codeStart (filenames.flatMap (sourceLines reader))).foldl
        LineTable.record .empty := by
  rw [loads.eq_performed, ← lines_surveyed capacity]
  exact (Workbench.sameProgram_performAll _ items).lines_eq

/--
The line table of a load partitions the code: the records of the lines, file
after file as often as each file is named, tile the addresses of the tokens, and
an address leads to the record of the line its token was read on.
-/
theorem partitionsCode_of_load
    {catalog : Catalog} {capacity : Int} {assembler : Assembler}
    (created : Assembler.create catalog capacity = .ok assembler)
    {reader : SourceReader} {filenames : List String} {image : Image}
    (loaded : (assembler.load reader filenames).1 = .ok image) :
    ∃ history,
      PartitionsCode (filenames.flatMap (sourceLines reader)) history image := by
  rcases (load_eq_ok_iff created).mp loaded with ⟨items, loads⟩
  exact ⟨_, partitionsCode_recordsFrom loads.lines_eq⟩

/-- A blank line, a line with a comment only, a label on a line of its own, and operands apart. -/
def spreadProgram : SourceReader :=
  singleSource "a" "mov x 7 ~ first\n\n~ nothing\n$x\npush\n x"

/-- The file is read twice, and its table does not list the records as they were made. -/
theorem partitionsCode_spreadProgram :
    ∃ assembler image history,
      Assembler.create Catalog.standard 40 = .ok assembler ∧
        (assembler.load spreadProgram ["a", "a"]).1 = .ok image ∧
          PartitionsCode (["a", "a"].flatMap (sourceLines spreadProgram)) history image ∧
            image.lines.records ≠ history := by
  have created : Assembler.create Catalog.standard 40 = .ok ⟨Catalog.standard, 40, none⟩ := rfl
  have succeeds :
      (((Assembler.mk Catalog.standard 40 none).load spreadProgram ["a", "a"]).1.toOption.map
        (fun image => image.lines.records.map LineRecord.source)) =
          some [⟨"a", 1⟩, ⟨"a", 1⟩, ⟨"a", 3⟩, ⟨"a", 3⟩, ⟨"a", 4⟩, ⟨"a", 4⟩, ⟨"a", 5⟩, ⟨"a", 5⟩,
            ⟨"a", 6⟩, ⟨"a", 6⟩] := by
    decide +kernel
  have sources :
      (["a", "a"].flatMap (sourceLines spreadProgram)).map Prod.fst =
        [⟨"a", 1⟩, ⟨"a", 3⟩, ⟨"a", 4⟩, ⟨"a", 5⟩, ⟨"a", 6⟩, ⟨"a", 1⟩, ⟨"a", 3⟩, ⟨"a", 4⟩, ⟨"a", 5⟩,
          ⟨"a", 6⟩] := by
    decide +kernel
  rcases Option.map_eq_some_iff.mp succeeds with ⟨image, found, listed⟩
  have loaded := eq_ok_of_toOption found
  rcases partitionsCode_of_load created loaded with ⟨history, partitions⟩
  refine ⟨_, image, history, created, loaded, partitions, ?_⟩
  intro same
  have recorded := partitions.sources_eq
  rw [← same, listed, sources] at recorded
  revert recorded
  decide

end Program

end WordMachine
