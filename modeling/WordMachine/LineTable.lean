import WordMachine.Roster

/-!
# Source lines and the addresses they produce

Each reading of a source line yields a record: the half-open range of
addresses of the tokens on that line.  The line table keeps every record.
Records of one line stand together in the order in which they were made, and
lines stand in the order in which they were first recorded.
-/

namespace WordMachine

/-- A line of a source file, counted from one. -/
structure SourceLine where
  filename : String
  number : Int
deriving DecidableEq

/-- The addresses from `start` up to but not including `stop`. -/
structure AddressRange where
  start : Int
  stop : Int
deriving DecidableEq

/-- Why the addresses of a range are not counted. -/
inductive LengthFault where
  /-- The range ends before it starts. -/
  | reversed
  /-- The range holds more addresses than can be counted. -/
  | tooLong
deriving DecidableEq

/-- The text that reports a range whose addresses are not counted. -/
def LengthFault.message : LengthFault → String
  | .reversed => "__len__() should return >= 0"
  | .tooLong => "cannot fit 'int' into an index-sized integer"

namespace AddressRange

/-- The largest number of addresses that can be counted. -/
def maxLength : Int := 0x7FFFFFFFFFFFFFFF

/-- Whether an address lies in a range. -/
def contains (range : AddressRange) (address : Int) : Bool :=
  range.start ≤ address && address < range.stop

/-- The number of addresses in a range. -/
def length (range : AddressRange) : Except LengthFault Nat :=
  if range.stop < range.start then .error .reversed
  else if maxLength < range.stop - range.start then .error .tooLong
  else .ok (range.stop - range.start).toNat

theorem contains_iff (range : AddressRange) (address : Int) :
    range.contains address = true ↔ range.start ≤ address ∧ address < range.stop := by
  simp [contains]

/-- There are not too many addresses in the range to be counted. -/
def IsCountable (range : AddressRange) : Prop :=
  range.stop - range.start ≤ maxLength

instance (range : AddressRange) : Decidable range.IsCountable :=
  inferInstanceAs (Decidable (_ ≤ _))

section

variable {range : AddressRange} (forward : range.start ≤ range.stop)

include forward

theorem length_of_countable (countable : range.IsCountable) :
    range.length = .ok (range.stop - range.start).toNat := by
  rw [length, if_neg (Int.not_lt.mpr forward), if_neg (Int.not_lt.mpr countable)]

theorem length_of_not_countable (uncountable : ¬ range.IsCountable) :
    range.length = .error .tooLong := by
  rw [length, if_neg (Int.not_lt.mpr forward), if_pos (Int.not_le.mp uncountable)]

end

end AddressRange

/-- The addresses that one reading of a source line produced. -/
structure LineRecord where
  source : SourceLine
  range : AddressRange
deriving DecidableEq

/-- The ranges of the readings of one line, of which there is at least one. -/
structure Readings where
  first : AddressRange
  later : List AddressRange
deriving DecidableEq

namespace Readings

/-- The ranges in order of reading. -/
def toList (readings : Readings) : List AddressRange :=
  readings.first :: readings.later

/-- The range of the latest reading. -/
def latest (readings : Readings) : AddressRange :=
  readings.later.getLastD readings.first

/-- The first range that holds an address. -/
def find? (readings : Readings) (address : Int) : Option AddressRange :=
  if readings.first.contains address then some readings.first
  else readings.later.find? (fun range => range.contains address)

theorem find?_eq_find?_toList (readings : Readings) (address : Int) :
    readings.find? address = readings.toList.find? (fun range => range.contains address) := by
  simp only [find?, toList, List.find?_cons]
  split <;> simp_all

/-- The readings with one more at the end. -/
def add (readings : Readings) (range : AddressRange) : Readings :=
  { readings with later := readings.later ++ [range] }

@[simp]
theorem toList_add (readings : Readings) (range : AddressRange) :
    (readings.add range).toList = readings.toList ++ [range] := by
  simp [toList, add]

end Readings

/-- The readings of every source line. -/
structure LineTable where
  readings : Roster SourceLine Readings

namespace LineTable

/-- The table without records. -/
def empty : LineTable := ⟨Roster.empty⟩

/-- Add the record of one reading. -/
def record (table : LineTable) (entry : LineRecord) : LineTable :=
  ⟨table.readings.update entry.source ⟨entry.range, []⟩ (fun old => old.add entry.range)⟩

/-- All records: lines in order of first record, readings of a line in order. -/
def records (table : LineTable) : List LineRecord :=
  table.readings.entries.flatMap (fun entry => entry.2.toList.map (fun range => ⟨entry.1, range⟩))

/-- The number of records. -/
def size (table : LineTable) : Nat :=
  table.records.length

/-- The records of one line in order of reading. -/
def findAll (table : LineTable) (source : SourceLine) : List LineRecord :=
  match table.readings.get? source with
  | none => []
  | some readings => readings.toList.map (fun range => ⟨source, range⟩)

/-- The record of the latest reading of a line. -/
def find? (table : LineTable) (source : SourceLine) : Option LineRecord :=
  (table.readings.get? source).map (fun readings => ⟨source, readings.latest⟩)

/-- The first record whose range holds an address. -/
def atAddress? (table : LineTable) (address : Int) : Option LineRecord :=
  table.readings.entries.findSome? (fun entry =>
    (entry.2.find? address).map (fun range => ⟨entry.1, range⟩))

theorem atAddress?_eq_find?_records (table : LineTable) (address : Int) :
    table.atAddress? address = table.records.find? (fun entry => entry.range.contains address) := by
  simp only [atAddress?, records, List.find?_flatMap, List.find?_map, Readings.find?_eq_find?_toList,
    Function.comp_def]

/--
The source line of the first record whose range holds an address.  The addresses
of the record are counted first, because a record without any would not do.
-/
def sourceAt? (table : LineTable) (address : Int) : Except LengthFault (Option SourceLine) :=
  match table.atAddress? address with
  | none => .ok none
  | some entry =>
      match entry.range.length with
      | .error fault => .error fault
      | .ok length => .ok (if length = 0 then none else some entry.source)

theorem mem_records_of_atAddress?
    {table : LineTable} {address : Int} {entry : LineRecord}
    (found : table.atAddress? address = some entry) :
    entry ∈ table.records := by
  rw [atAddress?_eq_find?_records] at found
  exact List.mem_of_find?_eq_some found

theorem start_lt_stop_of_atAddress?
    {table : LineTable} {address : Int} {entry : LineRecord}
    (found : table.atAddress? address = some entry) :
    entry.range.start < entry.range.stop := by
  rw [atAddress?_eq_find?_records] at found
  have holds : entry.range.contains address = true := by simpa using List.find?_some found
  rw [AddressRange.contains_iff] at holds
  omega

/-- A record that holds an address has addresses, but perhaps too many to be counted. -/
theorem sourceAt?_of_atAddress?
    {table : LineTable} {address : Int} {entry : LineRecord}
    (found : table.atAddress? address = some entry) :
    table.sourceAt? address =
      if entry.range.IsCountable then .ok (some entry.source) else .error .tooLong := by
  have proper := start_lt_stop_of_atAddress? found
  have some_addresses : (entry.range.stop - entry.range.start).toNat ≠ 0 := by omega
  by_cases countable : entry.range.IsCountable
  · simp [sourceAt?, found, AddressRange.length_of_countable (Int.le_of_lt proper) countable,
      countable, some_addresses]
  · simp [sourceAt?, found, AddressRange.length_of_not_countable (Int.le_of_lt proper) countable,
      countable]

theorem sourceAt?_of_countable
    {table : LineTable} {address : Int}
    (countable : ∀ entry, table.atAddress? address = some entry → entry.range.IsCountable) :
    table.sourceAt? address = .ok ((table.atAddress? address).map LineRecord.source) := by
  cases found : table.atAddress? address with
  | none => simp only [sourceAt?, found, Option.map_none]
  | some entry => rw [sourceAt?_of_atAddress? found, if_pos (countable entry found), Option.map_some]

/-! ## Recording many lines at once -/

/-- The records are of one file, with line numbers that grow from record to record. -/
def Ascending (filename : String) (entries : List LineRecord) : Prop :=
  (∀ entry ∈ entries, entry.source.filename = filename) ∧
    entries.Pairwise (fun earlier later => earlier.source.number < later.source.number)

/-- Test neighbouring records for `Ascending`. -/
def isAscending (filename : String) : List LineRecord → Bool
  | [] => true
  | [only] => only.source.filename == filename
  | first :: second :: rest =>
      first.source.filename == filename && first.source.number < second.source.number &&
        isAscending filename (second :: rest)

theorem ascending_of_isAscending
    {filename : String} {entries : List LineRecord}
    (tested : isAscending filename entries = true) :
    Ascending filename entries := by
  fun_induction isAscending filename entries with
  | case1 => exact ⟨by simp, List.Pairwise.nil⟩
  | case2 only => exact ⟨by simpa using tested, by simp⟩
  | case3 first second rest tailHolds =>
      simp only [Bool.and_eq_true, beq_iff_eq, decide_eq_true_eq] at tested
      obtain ⟨⟨sameFile, smaller⟩, tailTested⟩ := tested
      obtain ⟨tailFiles, tailPairs⟩ := tailHolds tailTested
      refine ⟨?_, List.Pairwise.cons ?_ tailPairs⟩
      · intro entry member
        rcases List.mem_cons.mp member with rfl | inTail
        · exact sameFile
        · exact tailFiles entry inTail
      · intro later member
        rcases List.mem_cons.mp member with rfl | inRest
        · exact smaller
        · exact Int.lt_trans smaller (List.rel_of_pairwise_cons tailPairs inRest)

theorem Ascending.nodup_sources
    {filename : String} {entries : List LineRecord} (ascending : Ascending filename entries) :
    (entries.map LineRecord.source).Nodup := by
  rw [List.Nodup, List.pairwise_map]
  refine ascending.2.imp ?_
  intro earlier later smaller equal
  rw [equal] at smaller
  exact absurd smaller (Int.lt_irrefl _)

/-- Whether no line of a file has been recorded. -/
def lacksFile (table : LineTable) (filename : String) : Bool :=
  table.readings.entries.all (fun entry => entry.1.filename != filename)

theorem not_mem_keys_of_lacksFile
    {table : LineTable} {filename : String} (lacks : table.lacksFile filename = true)
    {source : SourceLine} (ofFile : source.filename = filename) :
    source ∉ table.readings.keys := by
  intro member
  obtain ⟨entry, inEntries, rfl⟩ := List.mem_map.mp member
  have different := List.all_eq_true.mp lacks entry inEntries
  simp [ofFile] at different

/-- The roster entry of a line that is recorded for the first time. -/
def firstReading (entry : LineRecord) : SourceLine × Readings :=
  (entry.source, ⟨entry.range, []⟩)

theorem map_fst_firstReading (entries : List LineRecord) :
    (entries.map firstReading).map Prod.fst = entries.map LineRecord.source := by
  simp [firstReading, Function.comp_def]

/-- Record ascending lines of a file that the table does not know yet. -/
def appendFile (table : LineTable) (filename : String) (entries : List LineRecord)
    (lacks : table.lacksFile filename = true) (ascending : Ascending filename entries) :
    LineTable :=
  ⟨table.readings.append (entries.map firstReading)
    (by
      rw [map_fst_firstReading]
      exact ascending.nodup_sources)
    (by
      intro entry member
      obtain ⟨source, inEntries, rfl⟩ := List.mem_map.mp member
      exact not_mem_keys_of_lacksFile lacks (ascending.1 source inEntries))⟩

/-- Record the lines of one run: all at once if its file is new, else one by one. -/
def recordRun (table : LineTable) (run : List LineRecord) : LineTable :=
  match run with
  | [] => table
  | first :: rest =>
      if applies : table.lacksFile first.source.filename = true ∧
          isAscending first.source.filename (first :: rest) = true then
        table.appendFile first.source.filename (first :: rest) applies.1
          (ascending_of_isAscending applies.2)
      else
        (first :: rest).foldl record table

/--
Record entries from left to right, where `run` holds the entries of the run
being collected, the latest first.
-/
def recordAllFrom (table : LineTable) (run : List LineRecord) : List LineRecord → LineTable
  | [] => table.recordRun run.reverse
  | entry :: rest =>
      match run with
      | [] => recordAllFrom table [entry] rest
      | last :: _ =>
          if last.source.filename = entry.source.filename ∧
              last.source.number < entry.source.number then
            recordAllFrom table (entry :: run) rest
          else
            recordAllFrom (table.recordRun run.reverse) [entry] rest

/-- Record many entries. -/
def recordAll (table : LineTable) (entries : List LineRecord) : LineTable :=
  recordAllFrom table [] entries

theorem readings_record_of_not_mem
    {table : LineTable} {entry : LineRecord} (fresh : entry.source ∉ table.readings.keys) :
    (table.record entry).readings.entries =
      table.readings.entries ++ [firstReading entry] := by
  have notFound : ¬ table.readings.contains entry.source = true :=
    fun found => fresh ((table.readings.contains_eq_true_iff _).mp found)
  simp [record, Roster.update, notFound, Roster.append, firstReading]

theorem readings_foldl_record_of_fresh
    (table : LineTable) (entries : List LineRecord)
    (distinct : (entries.map LineRecord.source).Nodup)
    (fresh : ∀ entry ∈ entries, entry.source ∉ table.readings.keys) :
    (entries.foldl record table).readings.entries =
      table.readings.entries ++ entries.map firstReading := by
  induction entries generalizing table with
  | nil => simp
  | cons entry rest tailHolds =>
      have entryFresh := fresh entry (by simp)
      have step := readings_record_of_not_mem entryFresh
      rw [List.map_cons, List.nodup_cons] at distinct
      rw [List.foldl_cons, tailHolds _ distinct.2, step]
      · simp
      · intro later member
        rw [Roster.keys, step, List.map_append, List.mem_append]
        rintro (old | new)
        · exact fresh later (List.mem_cons_of_mem _ member) old
        · simp only [firstReading, List.map_cons, List.map_nil, List.mem_singleton] at new
          exact distinct.1 (new ▸ List.mem_map_of_mem member)

theorem recordRun_eq_foldl (table : LineTable) (run : List LineRecord) :
    table.recordRun run = run.foldl record table := by
  cases run with
  | nil => rfl
  | cons first rest =>
      simp only [recordRun]
      split
      case isTrue applies =>
          have ascending := ascending_of_isAscending applies.2
          have appended := readings_foldl_record_of_fresh table (first :: rest)
            ascending.nodup_sources
            (fun entry member => not_mem_keys_of_lacksFile applies.1 (ascending.1 entry member))
          show LineTable.mk _ = LineTable.mk _
          congr 1
          exact Roster.ext appended.symm
      case isFalse => rfl

theorem recordAllFrom_eq_foldl (table : LineTable) (run rest : List LineRecord) :
    recordAllFrom table run rest = (run.reverse ++ rest).foldl record table := by
  induction rest generalizing table run with
  | nil => simp [recordAllFrom, recordRun_eq_foldl]
  | cons entry rest tailHolds =>
      cases run with
      | nil => simp [recordAllFrom, tailHolds]
      | cons last earlier =>
          simp only [recordAllFrom]
          split
          · simp [tailHolds]
          · simp [tailHolds, recordRun_eq_foldl]

/-- Recording many entries is recording them one after the other. -/
theorem recordAll_eq_foldl (table : LineTable) (entries : List LineRecord) :
    table.recordAll entries = entries.foldl record table := by
  simp [recordAll, recordAllFrom_eq_foldl]

end LineTable

end WordMachine
