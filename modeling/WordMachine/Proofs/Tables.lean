import WordMachine.Label
import WordMachine.LineTable

/-!
# Laws of the tables

What a table answers after a key was written, and that a table is rebuilt by
writing its own entries in order.  The last fact holds for rosters, and so
for label tables; line tables need an argument of their own, because each of
their keys holds several records, which stand together in the records of the
table.  Conversely, the lists that a table gives back as they were written are
those of labels with distinct names and those of records grouped by line.
-/

namespace WordMachine

namespace Roster

variable {κ ν : Type} [DecidableEq κ]

/-! ## Look-up after a write -/

theorem lookup_changeEntries
    (entries : List (κ × ν)) (key other : κ) (change : ν → ν) :
    (changeEntries entries key change).lookup other =
      if other = key then (entries.lookup other).map change else entries.lookup other := by
  induction entries with
  | nil => simp [changeEntries]
  | cons entry rest tailHolds =>
      rcases entry with ⟨first, value⟩
      simp only [changeEntries, List.map_cons] at tailHolds ⊢
      by_cases isFirst : other = first
      · subst first
        by_cases isKey : other = key
        · simp [isKey]
        · simp [isKey]
      · have differs : (other == first) = false := by simpa using isFirst
        by_cases firstIsKey : first = key
        · simp only [firstIsKey, if_true, List.lookup_cons] at differs ⊢
          simp only [differs]
          exact tailHolds
        · simp only [firstIsKey, if_false, List.lookup_cons, differs]
          exact tailHolds

theorem changeEntries_append
    (entries more : List (κ × ν)) (key : κ) (change : ν → ν) :
    changeEntries (entries ++ more) key change =
      changeEntries entries key change ++ changeEntries more key change :=
  List.map_append

theorem changeEntries_of_not_mem
    {entries : List (κ × ν)} {key : κ} (absent : key ∉ entries.map Prod.fst) (change : ν → ν) :
    changeEntries entries key change = entries := by
  induction entries with
  | nil => rfl
  | cons entry rest tailHolds =>
      rw [List.map_cons, List.mem_cons, not_or] at absent
      have differs : entry.1 ≠ key := fun equal => absent.1 equal.symm
      have tail := tailHolds absent.2
      simp only [changeEntries] at tail
      simp [changeEntries, differs, tail]

theorem get?_eq_none_iff (roster : Roster κ ν) (key : κ) :
    roster.get? key = none ↔ roster.contains key = false := by
  simp only [get?, contains, List.lookup_eq_none_iff, List.any_eq_false, bne_iff_ne, beq_iff_eq]
  constructor
  · intro absent entry member equal
    exact absent entry member equal.symm
  · intro absent entry member equal
    exact absent entry member equal.symm

/--
An update changes the answer for the key that is updated and for no other: a
value that was there is changed, and a new key gets its initial value.
-/
theorem get?_update
    (roster : Roster κ ν) (key other : κ) (initial : ν) (change : ν → ν) :
    (roster.update key initial change).get? other =
      if other = key then some ((roster.get? key).elim initial change)
      else roster.get? other := by
  simp only [update]
  split
  case isTrue present =>
    simp only [get?, lookup_changeEntries]
    by_cases isKey : other = key
    · subst other
      cases found : roster.entries.lookup key with
      | some old => simp
      | none =>
          have absent := (get?_eq_none_iff roster key).mp found
          rw [present] at absent
          cases absent
    · simp [isKey]
  case isFalse absent =>
    have notFound : roster.get? key = none := by
      rw [get?_eq_none_iff]
      simpa using absent
    simp only [get?, append, List.lookup_append] at notFound ⊢
    by_cases isKey : other = key
    · subst other
      simp [notFound]
    · have differs : (other == key) = false := by simpa using isKey
      simp [isKey, List.lookup_cons, differs]

/-- Writing changes the answer for the key that is written and for no other. -/
theorem get?_insert (roster : Roster κ ν) (key other : κ) (value : ν) :
    (roster.insert key value).get? other =
      if other = key then some value else roster.get? other := by
  rw [insert, get?_update]
  cases roster.get? key with
  | none => rfl
  | some old => rfl

theorem mem_of_get? {roster : Roster κ ν} {key : κ} {value : ν}
    (found : roster.get? key = some value) :
    (key, value) ∈ roster.entries := by
  rcases List.lookup_eq_some_iff.mp found with ⟨before, after, split, _⟩
  rw [split]
  simp

/-- The keys are distinct, so an entry is found by its key. -/
theorem get?_of_mem {roster : Roster κ ν} {key : κ} {value : ν}
    (member : (key, value) ∈ roster.entries) :
    roster.get? key = some value := by
  rcases List.append_of_mem member with ⟨before, after, split⟩
  have distinct := roster.distinct
  rw [split, List.map_append, List.nodup_append] at distinct
  rw [get?, List.lookup_eq_some_iff]
  refine ⟨before, after, split, ?_⟩
  intro entry earlier
  rw [bne_iff_ne]
  exact Ne.symm (distinct.2.2 entry.1 (List.mem_map_of_mem earlier) key (by simp))

theorem mem_entries_insert
    {roster : Roster κ ν} {key : κ} {value : ν} {entry : κ × ν}
    (member : entry ∈ (roster.insert key value).entries) :
    entry = (key, value) ∨ entry ∈ roster.entries := by
  simp only [insert, update] at member
  split at member
  · simp only [changeEntries, List.mem_map] at member
    rcases member with ⟨old, inEntries, rfl⟩
    by_cases isKey : old.1 = key
    · left
      simp [isKey]
    · right
      simpa [isKey] using inEntries
  · simp only [append, List.mem_append, List.mem_singleton] at member
    exact member.symm

theorem length_entries_insert_le (roster : Roster κ ν) (key : κ) (value : ν) :
    (roster.insert key value).entries.length ≤ roster.entries.length + 1 := by
  simp only [insert, update]
  split
  · simp [changeEntries]
  · simp [append]

/-! ## Rebuilding a roster -/

theorem entries_insert_of_not_mem
    {roster : Roster κ ν} {key : κ} (absent : key ∉ roster.keys) (value : ν) :
    (roster.insert key value).entries = roster.entries ++ [(key, value)] := by
  have notFound : ¬ roster.contains key = true :=
    fun found => absent ((roster.contains_eq_true_iff key).mp found)
  simp [insert, update, notFound, append]

theorem entries_foldl_insert
    (roster : Roster κ ν) (more : List (κ × ν))
    (distinct : (more.map Prod.fst).Nodup)
    (fresh : ∀ entry ∈ more, entry.1 ∉ roster.keys) :
    (more.foldl (fun table entry => table.insert entry.1 entry.2) roster).entries =
      roster.entries ++ more := by
  induction more generalizing roster with
  | nil => simp
  | cons entry rest tailHolds =>
      have step := entries_insert_of_not_mem (fresh entry (by simp)) entry.2
      rw [List.map_cons, List.nodup_cons] at distinct
      rw [List.foldl_cons, tailHolds _ distinct.2, step]
      · simp
      · intro later member
        rw [keys, step, List.map_append, List.mem_append]
        rintro (old | new)
        · exact fresh later (List.mem_cons_of_mem _ member) old
        · simp only [List.map_cons, List.map_nil, List.mem_singleton] at new
          exact distinct.1 (new ▸ List.mem_map_of_mem member)

/-- A roster is what its own entries make of the empty roster. -/
theorem foldl_insert_entries (roster : Roster κ ν) :
    roster.entries.foldl (fun table entry => table.insert entry.1 entry.2) empty = roster := by
  apply Roster.ext
  rw [entries_foldl_insert empty roster.entries roster.distinct]
  · rfl
  · intro entry _ member
    cases member

end Roster

/-! ## Labels -/

namespace Label

theorem dropMarker_of_head?_ne
    {characters : List Char} (head : characters.head? ≠ some marker) :
    dropMarker characters = characters := by
  cases characters with
  | nil => rfl
  | cons first rest => rw [dropMarker, if_neg (fun equal => head (congrArg some equal))]

/-- A name without marker and colon is its own normal form. -/
theorem normalize_of_unmarked
    {name : String} (head : name.toList.head? ≠ some marker)
    (last : name.toList.getLast? ≠ some ':') :
    normalize name = name := by
  rw [normalize, dropMarker_of_head?_ne head, dropColon, if_neg last, String.ofList_toList]

end Label

namespace LabelTable

theorem find?_register
    (table : LabelTable) (spelling query : String) (address : Int) :
    (table.register spelling address).find? query =
      if Label.normalize query = Label.normalize spelling then some address
      else table.find? query :=
  Roster.get?_insert _ _ _ _

theorem resolve_congr
    {table : LabelTable} {spelling query : String}
    (same : Label.normalize spelling = Label.normalize query) :
    table.resolve spelling = table.resolve query := by
  rw [resolve, resolve, find?, find?, same]

theorem find?_eq_none_iff (table : LabelTable) (query : String) :
    table.find? query = none ↔ table.contains query = false :=
  Roster.get?_eq_none_iff _ _

theorem bindings_foldl_bind (items : List (String × Int)) (table : LabelTable) :
    (items.foldl (fun labels item => labels.bind item.1 item.2) table).bindings =
      items.foldl (fun roster entry => roster.insert entry.1 entry.2) table.bindings := by
  induction items generalizing table with
  | nil => rfl
  | cons item rest tailHolds => exact tailHolds (table.bind item.1 item.2)

/-- Bindings of other names leave the address of a name as it is. -/
theorem get?_foldl_bind_of_absent
    {items : List (String × Int)} {name : String} (table : LabelTable)
    (absent : ∀ item ∈ items, item.1 ≠ name) :
    (items.foldl (fun table item => table.bind item.1 item.2) table).bindings.get? name =
      table.bindings.get? name := by
  induction items generalizing table with
  | nil => rfl
  | cons item rest tailHolds =>
      rw [List.forall_mem_cons] at absent
      rw [List.foldl_cons, tailHolds _ absent.2, bind, Roster.get?_insert,
        if_neg (Ne.symm absent.1)]

theorem get?_foldl_bind_of_last
    {earlier later : List (String × Int)} {name : String} {address : Int} (table : LabelTable)
    (last : ∀ item ∈ later, item.1 ≠ name) :
    ((earlier ++ (name, address) :: later).foldl
        (fun table item => table.bind item.1 item.2) table).bindings.get? name =
      some address := by
  rw [List.foldl_append, List.foldl_cons, get?_foldl_bind_of_absent _ last, bind,
    Roster.get?_insert, if_pos rfl]

/-- A label table is what its own items make of the empty table. -/
theorem foldl_bind_items (table : LabelTable) :
    table.items.foldl (fun labels item => labels.bind item.1 item.2) empty = table := by
  have same := bindings_foldl_bind table.items empty
  rw [items, empty, Roster.foldl_insert_entries] at same
  exact congrArg LabelTable.mk same

theorem mem_of_mem_items_foldl_bind
    {items : List (String × Int)} {table : LabelTable} {item : String × Int}
    (member : item ∈ (items.foldl (fun table item => table.bind item.1 item.2) table).items) :
    item ∈ items ∨ item ∈ table.items := by
  induction items generalizing table with
  | nil => exact .inr member
  | cons first rest tailHolds =>
      rw [List.foldl_cons] at member
      rcases tailHolds member with inRest | bound
      · exact .inl (List.mem_cons_of_mem _ inRest)
      · rcases Roster.mem_entries_insert bound with rfl | old
        · exact .inl (by simp)
        · exact .inr old

theorem length_items_foldl_bind_le (items : List (String × Int)) (table : LabelTable) :
    (items.foldl (fun table item => table.bind item.1 item.2) table).items.length ≤
      table.items.length + items.length := by
  induction items generalizing table with
  | nil => exact Nat.le_refl _
  | cons item rest tailHolds =>
      calc
        ((item :: rest).foldl (fun table item => table.bind item.1 item.2) table).items.length
          ≤ (table.bind item.1 item.2).items.length + rest.length := tailHolds _
        _ ≤ table.items.length + 1 + rest.length :=
          Nat.add_le_add_right (Roster.length_entries_insert_le _ _ _) _
        _ = table.items.length + (item :: rest).length := by
          rw [List.length_cons, Nat.add_assoc, Nat.add_comm 1]

/-- Items make a table that lists just them exactly when no name occurs twice. -/
theorem items_foldl_bind_eq_iff (items : List (String × Int)) :
    (items.foldl (fun table item => table.bind item.1 item.2) empty).items = items ↔
      (items.map Prod.fst).Nodup := by
  constructor
  · intro listed
    have distinct :=
      (items.foldl (fun table item => table.bind item.1 item.2) empty).bindings.distinct
    rw [← LabelTable.items, listed] at distinct
    exact distinct
  · intro distinct
    rw [LabelTable.items, bindings_foldl_bind, Roster.entries_foldl_insert _ items distinct]
    · rfl
    · intro item _ member
      cases member

end LabelTable

namespace LineTable

/-! ## Line records -/

/-- The records of the readings of one line. -/
def recordsOf (entry : SourceLine × Readings) : List LineRecord :=
  entry.2.toList.map (fun range => ⟨entry.1, range⟩)

theorem records_eq_flatMap (table : LineTable) :
    table.records = table.readings.entries.flatMap recordsOf :=
  rfl

/-- Recording a line again adds a reading to its entry, which keeps its place. -/
theorem readings_record_of_split
    {table : LineTable} {earlier later : List (SourceLine × Readings)}
    {source : SourceLine} {readings : Readings}
    (entries : table.readings.entries = earlier ++ (source, readings) :: later)
    (range : AddressRange) :
    (table.record ⟨source, range⟩).readings.entries =
      earlier ++ (source, readings.add range) :: later := by
  have present : table.readings.contains source = true := by
    simp [Roster.contains, entries]
  have distinct := table.readings.distinct
  rw [entries, List.map_append, List.map_cons, List.nodup_append, List.nodup_cons] at distinct
  rcases distinct with ⟨_, ⟨notLater, _⟩, apart⟩
  have notEarlier : source ∉ earlier.map Prod.fst :=
    fun member => apart source member source (by simp) rfl
  have changed :
      Roster.changeEntries ((source, readings) :: later) source (fun old => old.add range) =
        (source, readings.add range) ::
          Roster.changeEntries later source (fun old => old.add range) := by
    simp [Roster.changeEntries]
  simp only [record, Roster.update, present, dif_pos, entries]
  rw [Roster.changeEntries_append, changed, Roster.changeEntries_of_not_mem notEarlier,
    Roster.changeEntries_of_not_mem notLater]

theorem readings_foldl_later
    {table : LineTable} {earlier : List (SourceLine × Readings)}
    {source : SourceLine} {readings : Readings}
    (entries : table.readings.entries = earlier ++ [(source, readings)])
    (ranges : List AddressRange) :
    ((ranges.map (fun range => ⟨source, range⟩)).foldl record table).readings.entries =
      earlier ++ [(source, ⟨readings.first, readings.later ++ ranges⟩)] := by
  induction ranges generalizing table readings with
  | nil => simpa using entries
  | cons range rest tailHolds =>
      have step := readings_record_of_split entries range
      rw [List.map_cons, List.foldl_cons, tailHolds step]
      simp [Readings.add]

/-- Recording the readings of a new line puts them at the end of the table as one entry. -/
theorem readings_foldl_recordsOf
    {table : LineTable} {entry : SourceLine × Readings}
    (fresh : entry.1 ∉ table.readings.keys) :
    ((recordsOf entry).foldl record table).readings.entries =
      table.readings.entries ++ [entry] := by
  rcases entry with ⟨source, first, later⟩
  have firstStep :
      (table.record ⟨source, first⟩).readings.entries =
        table.readings.entries ++ [(source, ⟨first, []⟩)] :=
    readings_record_of_not_mem fresh
  simpa [recordsOf, Readings.toList] using readings_foldl_later firstStep later

theorem readings_foldl_record_flatMap
    (table : LineTable) (entries : List (SourceLine × Readings))
    (distinct : (entries.map Prod.fst).Nodup)
    (fresh : ∀ entry ∈ entries, entry.1 ∉ table.readings.keys) :
    ((entries.flatMap recordsOf).foldl record table).readings.entries =
      table.readings.entries ++ entries := by
  induction entries generalizing table with
  | nil => simp
  | cons entry rest tailHolds =>
      have step := readings_foldl_recordsOf (fresh entry (by simp))
      rw [List.map_cons, List.nodup_cons] at distinct
      rw [List.flatMap_cons, List.foldl_append, tailHolds _ distinct.2, step]
      · simp
      · intro later member
        rw [Roster.keys, step, List.map_append, List.mem_append]
        rintro (old | new)
        · exact fresh later (List.mem_cons_of_mem _ member) old
        · simp only [List.map_cons, List.map_nil, List.mem_singleton] at new
          exact distinct.1 (new ▸ List.mem_map_of_mem member)

/--
A line table is what its own records make of the empty table.  The records of
one line stand together, so recording them in table order restores both the
order of the lines and the readings of each.
-/
theorem recordAll_records (table : LineTable) :
    empty.recordAll table.records = table := by
  have entries :
      (table.records.foldl record empty).readings.entries = table.readings.entries := by
    rw [records_eq_flatMap,
      readings_foldl_record_flatMap empty table.readings.entries table.readings.distinct]
    · rfl
    · intro entry _ member
      cases member
  rw [recordAll_eq_foldl]
  exact congrArg LineTable.mk (Roster.ext entries)

/-- The records of a table after one more was made, up to the order of the table. -/
theorem records_record_perm (table : LineTable) (entry : LineRecord) :
    (table.record entry).records.Perm (table.records ++ [entry]) := by
  rcases entry with ⟨source, range⟩
  by_cases known : source ∈ table.readings.keys
  · rcases List.mem_map.mp known with ⟨⟨source, readings⟩, member, rfl⟩
    rcases List.mem_iff_append.mp member with ⟨earlier, later, entries⟩
    have placed :
        (table.record ⟨source, range⟩).records =
          (earlier.flatMap recordsOf ++ recordsOf (source, readings)) ++
            ⟨source, range⟩ :: later.flatMap recordsOf := by
      rw [records_eq_flatMap, readings_record_of_split entries]
      simp [recordsOf]
    have before :
        table.records ++ [⟨source, range⟩] =
          (earlier.flatMap recordsOf ++ recordsOf (source, readings)) ++
            (later.flatMap recordsOf ++ [⟨source, range⟩]) := by
      rw [records_eq_flatMap, entries]
      simp
    rw [placed, before]
    exact List.Perm.append_left _ (List.perm_append_singleton _ _).symm
  · rw [records_eq_flatMap, readings_record_of_not_mem known, List.flatMap_append]
    exact List.Perm.refl _

/-- A table holds the records that were made, each as often as it was made. -/
theorem records_foldl_record_perm (table : LineTable) (history : List LineRecord) :
    (history.foldl record table).records.Perm (table.records ++ history) := by
  induction history generalizing table with
  | nil => simp
  | cons entry rest tailHolds =>
      have step := (records_record_perm table entry).append_right rest
      rw [List.append_assoc] at step
      exact (tailHolds (table.record entry)).trans step

/-! ## Records in table order -/

/-- Records of one line stand together. -/
def IsGrouped (entries : List LineRecord) : Prop :=
  ∀ earlier first between last later,
    entries = earlier ++ first :: (between ++ last :: later) → first.source = last.source →
      ∀ entry ∈ between, entry.source = first.source

theorem IsGrouped.tail {entry : LineRecord} {rest : List LineRecord}
    (grouped : IsGrouped (entry :: rest)) :
    IsGrouped rest := by
  intro earlier first between last later split
  exact grouped (entry :: earlier) first between last later (by rw [split, List.cons_append])

/-- If a record of another line follows a record, then the line of the record does not come back. -/
theorem IsGrouped.not_mem
    {entry : LineRecord} {source : SourceLine} {readings : Readings}
    {others : List (SourceLine × Readings)}
    (grouped : IsGrouped (entry :: ((source, readings) :: others).flatMap recordsOf))
    (differs : entry.source ≠ source) :
    entry.source ∉ ((source, readings) :: others).map Prod.fst := by
  rw [List.map_cons, List.mem_cons, not_or]
  refine ⟨differs, ?_⟩
  intro member
  rcases List.mem_map.mp member with ⟨group, inOthers, same⟩
  have again : (⟨entry.source, group.2.first⟩ : LineRecord) ∈ others.flatMap recordsOf := by
    apply List.mem_flatMap_of_mem inOthers
    simp [recordsOf, Readings.toList, same]
  rcases List.append_of_mem again with ⟨between, later, split⟩
  -- The first record of the other line stands between the two of this line.
  have together := grouped [] entry
    (⟨source, readings.first⟩ ::
      (readings.later.map (fun range => ⟨source, range⟩) ++ between))
    ⟨entry.source, group.2.first⟩ later
    (by simp [recordsOf, Readings.toList, split]) rfl
  exact differs (together ⟨source, readings.first⟩ (by simp)).symm

/-- Records that stand together come from the entries of a table. -/
theorem IsGrouped.exists_entries {entries : List LineRecord} (grouped : IsGrouped entries) :
    ∃ groups : List (SourceLine × Readings),
      (groups.map Prod.fst).Nodup ∧ entries = groups.flatMap recordsOf := by
  induction entries with
  | nil => exact ⟨[], List.nodup_nil, rfl⟩
  | cons entry rest tailHolds =>
      rcases tailHolds grouped.tail with ⟨groups, distinct, rfl⟩
      match groups with
      | [] => exact ⟨[(entry.source, ⟨entry.range, []⟩)], by simp, rfl⟩
      | (source, readings) :: others =>
          by_cases same : entry.source = source
          · subst same
            exact ⟨(entry.source, ⟨entry.range, readings.toList⟩) :: others, distinct, rfl⟩
          · refine ⟨(entry.source, ⟨entry.range, []⟩) :: (source, readings) :: others, ?_, rfl⟩
            rw [List.map_cons, List.nodup_cons]
            exact ⟨grouped.not_mem same, distinct⟩

theorem source_of_mem_recordsOf
    {group : SourceLine × Readings} {entry : LineRecord} (member : entry ∈ recordsOf group) :
    entry.source = group.1 := by
  rcases List.mem_map.mp member with ⟨range, _, rfl⟩
  rfl

theorem source_mem_of_mem_flatMap
    {groups : List (SourceLine × Readings)} {entry : LineRecord}
    (member : entry ∈ groups.flatMap recordsOf) :
    entry.source ∈ groups.map Prod.fst := by
  rcases List.mem_flatMap.mp member with ⟨group, inGroups, inRecords⟩
  rw [source_of_mem_recordsOf inRecords]
  exact List.mem_map_of_mem inGroups

/--
Entries with distinct keys give records that stand together.  The first of two
records of one line lies in the first entry or behind it; in the first entry the
second lies there too, since no later entry has the same key.
-/
theorem isGrouped_flatMap
    {groups : List (SourceLine × Readings)} (distinct : (groups.map Prod.fst).Nodup) :
    IsGrouped (groups.flatMap recordsOf) := by
  induction groups with
  | nil =>
      intro earlier first between last later split
      simp at split
  | cons group others tailHolds =>
      rw [List.map_cons, List.nodup_cons] at distinct
      have behind := tailHolds distinct.2
      intro earlier first between last later split same entry member
      rw [List.flatMap_cons] at split
      rcases List.append_eq_append_iff.mp split with
        ⟨skipped, _, otherRecords⟩ | ⟨here, ofGroup, restSplit⟩
      · exact behind skipped first between last later otherRecords same entry member
      · match here, restSplit with
        | [], restSplit =>
            exact behind [] first between last later restSplit.symm same entry member
        | _ :: here, restSplit =>
            rw [List.cons_append, List.cons.injEq] at restSplit
            rcases restSplit with ⟨rfl, restSplit⟩
            have firstSource : first.source = group.1 :=
              source_of_mem_recordsOf (by simp [ofGroup])
            rcases List.append_eq_append_iff.mp restSplit with
              ⟨within, hereSplit, _⟩ | ⟨beyond, _, otherRecords⟩
            · rw [firstSource]
              apply source_of_mem_recordsOf
              simp [ofGroup, hereSplit, member]
            · have lastMember : last ∈ others.flatMap recordsOf := by simp [otherRecords]
              have lastSource := source_mem_of_mem_flatMap lastMember
              rw [← same, firstSource] at lastSource
              exact absurd lastSource distinct.1

/-- Records make a table that lists just them exactly when those of one line stand together. -/
theorem records_foldl_record_eq_iff (entries : List LineRecord) :
    (entries.foldl record empty).records = entries ↔ IsGrouped entries := by
  constructor
  · intro listed
    rw [← listed]
    exact isGrouped_flatMap (entries.foldl record empty).readings.distinct
  · intro grouped
    rcases grouped.exists_entries with ⟨groups, distinct, rfl⟩
    rw [records_eq_flatMap, readings_foldl_record_flatMap empty groups distinct]
    · rfl
    · intro group _ member
      cases member

end LineTable

end WordMachine
