import Mathlib.Data.List.Basic
import WordMachine.Proofs.Tables.Arrival

/-!
# Line tables and their histories

A line table keeps the records of a line together, and so lists them in another
order than the one in which they were made.  `LineTable.Reflects` says what each
question to the table means for the records made since the last clearing.

Everything rests on the records of one line: recording adds to those of its own
line and leaves all others alone.  The records of the table are those of its
lines, in the order in which the lines were first recorded.
-/

namespace WordMachine

namespace LineTable

/-! ## The records of one line -/

theorem findAll_record (table : LineTable) (entry : LineRecord) (source : SourceLine) :
    (table.record entry).findAll source =
      if entry.source = source then table.findAll source ++ [entry] else table.findAll source := by
  rcases entry with ⟨recorded, range⟩
  simp only [findAll, record, Roster.get?_update]
  by_cases same : recorded = source
  · subst recorded
    rw [if_pos rfl, if_pos rfl]
    cases table.readings.get? source with
    | none => rfl
    | some readings => simp
  · rw [if_neg (Ne.symm same), if_neg same]

/-- The records of a line are those made of it, in the order in which they were made. -/
theorem findAll_foldl_record (history : List LineRecord) (source : SourceLine) :
    (history.foldl record empty).findAll source =
      history.filter (fun entry => entry.source = source) := by
  induction history using List.reverseRecOn with
  | nil => rfl
  | append_singleton earlier entry earlierHolds =>
      rw [List.foldl_append, List.foldl_cons, List.foldl_nil, findAll_record, earlierHolds,
        List.filter_append]
      by_cases same : entry.source = source
      · simp [same]
      · simp [same]

theorem find?_eq_getLast?_findAll (table : LineTable) (source : SourceLine) :
    table.find? source = (table.findAll source).getLast? := by
  rw [find?, findAll]
  cases table.readings.get? source with
  | none => rfl
  | some readings =>
      simp [Readings.toList, Readings.latest, List.getLast?_cons, List.getLastD_eq_getLast?]

/-- The records of a table are those of its lines, one line after the other. -/
theorem records_eq_flatMap_findAll (table : LineTable) :
    table.records = table.readings.keys.flatMap table.findAll := by
  rw [records_eq_flatMap, Roster.keys, List.flatMap_map]
  apply List.flatMap_congr
  intro entry member
  have found : table.readings.get? entry.1 = some entry.2 := Roster.get?_of_mem member
  rw [findAll, found]
  rfl

/-! ## Lines in order of recording -/

theorem readings_foldl_record (history : List LineRecord) (table : LineTable) :
    (history.foldl record table).readings =
      history.foldl
        (fun roster entry =>
          roster.update entry.source ⟨entry.range, []⟩ (fun old => old.add entry.range))
        table.readings := by
  induction history generalizing table with
  | nil => rfl
  | cons entry rest tailHolds => exact tailHolds (table.record entry)

theorem firstArrivals_foldl_record (history : List LineRecord) :
    FirstArrivals (history.foldl record empty).readings.keys (history.map LineRecord.source) := by
  rw [readings_foldl_record]
  exact Roster.firstArrivals_foldl_update LineRecord.source _ _ history

/-! ## Histories -/

/-- A table answers every question by the records of a history. -/
structure Reflects (table : LineTable) (history : List LineRecord) : Prop where
  findAll_eq : ∀ source : SourceLine,
    table.findAll source = history.filter (fun entry => entry.source = source)
  find?_eq : ∀ source : SourceLine,
    table.find? source = (history.filter (fun entry => entry.source = source)).getLast?
  size_eq : table.size = history.length
  /-- Every record is listed as often as it was made. -/
  perm : table.records.Perm history
  /-- Lines stand in the order of their first records, the records of a line as they were made. -/
  order : ∃ sources : List SourceLine,
    FirstArrivals sources (history.map LineRecord.source) ∧
      table.records =
        sources.flatMap (fun source => history.filter (fun entry => entry.source = source))
  atAddress?_eq : ∀ address : Int,
    table.atAddress? address =
      table.records.find?
        (fun entry => entry.range.start ≤ address ∧ address < entry.range.stop)
  /-- A record that is found is neither empty nor reversed. -/
  start_lt_stop : ∀ (address : Int) (entry : LineRecord),
    table.atAddress? address = some entry → entry.range.start < entry.range.stop

theorem reflects_foldl_record (history : List LineRecord) :
    Reflects (history.foldl record empty) history := by
  have ofLine := findAll_foldl_record history
  have perm : (history.foldl record empty).records.Perm history :=
    records_foldl_record_perm empty history
  constructor
  case findAll_eq => exact ofLine
  case find?_eq =>
    intro source
    rw [find?_eq_getLast?_findAll, ofLine]
  case size_eq => exact perm.length_eq
  case perm => exact perm
  case order =>
    refine ⟨_, firstArrivals_foldl_record history, ?_⟩
    rw [records_eq_flatMap_findAll]
    exact List.flatMap_congr fun source _ => ofLine source
  case atAddress?_eq =>
    intro address
    rw [atAddress?_eq_find?_records]
    simp only [AddressRange.contains, Bool.decide_and]
  case start_lt_stop => exact fun address entry found => start_lt_stop_of_atAddress? found

/--
Whatever is recorded and cleared, a table answers by the records made since the
last clearing.
-/
theorem reflects_history_of_calls (calls : List (TableCall LineRecord)) :
    TableCall.SinceClear calls (TableCall.history calls) ∧
      Reflects (TableCall.afterAll record empty calls) (TableCall.history calls) := by
  refine ⟨TableCall.sinceClear_history calls, ?_⟩
  rw [TableCall.afterAll_eq_foldl_history]
  exact reflects_foldl_record (TableCall.history calls)

end LineTable

end WordMachine
