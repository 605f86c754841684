import WordMachine.Proofs.Tables.Arrival

/-!
# Label tables and their histories

Labels are bound under a spelling, of which marker and colon are taken off, or
under a name that is kept as it stands; every question takes marker and colon off
once.  `LabelTable.Reflects` says what the answers mean for the bindings made
since the last clearing: the last binding of the name counts.

Taking off marker and colon is not idempotent, so a name that has some of its own
is not found under itself.  It is found under the spelling with one more of each,
as every name is, and a name that has none is found under all its spellings.
-/

namespace WordMachine

/-! ## Spellings -/

namespace Label

/-- A name with neither a marker in front of it nor a colon behind it. -/
structure IsUnmarked (name : String) : Prop where
  no_marker : name.toList.head? ≠ some marker
  no_colon : name.toList.getLast? ≠ some ':'

/-- The ways to spell a name. -/
def spellings (name : String) : List String :=
  [name, "$" ++ name, name ++ ":", "$" ++ name ++ ":"]

theorem dropMarker_marker_append (name : String) :
    dropMarker ("$" ++ name).toList = name.toList := by
  rw [String.toList_append]
  rfl

theorem dropColon_concat (characters : List Char) :
    dropColon (characters ++ [':']) = characters := by
  rw [dropColon, List.getLast?_concat, if_pos rfl, List.dropLast_concat]

/-- Whatever a name holds, the spelling with a marker and a colon denotes it. -/
theorem normalize_marker_colon (name : String) : normalize ("$" ++ name ++ ":") = name := by
  have characters : dropMarker ("$" ++ name ++ ":").toList = name.toList ++ [':'] := by
    rw [String.append_assoc, dropMarker_marker_append, String.toList_append]
    rfl
  rw [normalize, characters, dropColon_concat, String.ofList_toList]

theorem normalize_marker
    {name : String} (no_colon : name.toList.getLast? ≠ some ':') :
    normalize ("$" ++ name) = name := by
  rw [normalize, dropMarker_marker_append, dropColon, if_neg no_colon, String.ofList_toList]

theorem normalize_colon
    {name : String} (no_marker : name.toList.head? ≠ some marker) :
    normalize (name ++ ":") = name := by
  have characters : (name ++ ":").toList = name.toList ++ [':'] := String.toList_append
  have first : (name.toList ++ [':']).head? ≠ some marker := by
    cases empty : name.toList with
    | nil => decide
    | cons initial rest =>
        rw [empty] at no_marker
        exact no_marker
  rw [normalize, characters, dropMarker_of_head?_ne first, dropColon_concat, String.ofList_toList]

theorem normalize_of_mem_spellings
    {name spelling : String} (unmarked : IsUnmarked name) (spells : spelling ∈ spellings name) :
    normalize spelling = name := by
  simp only [spellings, List.mem_cons, List.not_mem_nil, or_false] at spells
  rcases spells with rfl | rfl | rfl | rfl
  · exact normalize_of_unmarked unmarked.no_marker unmarked.no_colon
  · exact normalize_marker unmarked.no_colon
  · exact normalize_colon unmarked.no_marker
  · exact normalize_marker_colon name

end Label

namespace LabelTable

/-! ## Bindings -/

/-- A binding as it is asked for. -/
inductive Write where
  /-- Bind the name that a spelling denotes. -/
  | register (spelling : String) (address : Int)
  /-- Bind a name as it stands. -/
  | bind (name : String) (address : Int)

/-- The name that is bound. -/
def Write.name : Write → String
  | .register spelling _ => Label.normalize spelling
  | .bind name _ => name

/-- The address that the name is bound to. -/
def Write.address : Write → Int
  | .register _ address => address
  | .bind _ address => address

/-- Bind as asked for. -/
def write (table : LabelTable) : Write → LabelTable
  | .register spelling address => table.register spelling address
  | .bind name address => table.bind name address

/-- The address in the last binding of a name. -/
def lastAddress? (history : List Write) (name : String) : Option Int :=
  (history.filter (fun write => write.name = name)).getLast?.map Write.address

theorem write_eq_bind (table : LabelTable) (write : Write) :
    table.write write = table.bind write.name write.address := by
  cases write with
  | register spelling address => rfl
  | bind name address => rfl

theorem bindings_foldl_write (history : List Write) (table : LabelTable) :
    (history.foldl write table).bindings =
      history.foldl (fun roster write => roster.insert write.name write.address)
        table.bindings := by
  induction history generalizing table with
  | nil => rfl
  | cons first rest tailHolds =>
      rw [List.foldl_cons, tailHolds, write_eq_bind]
      rfl

/-- A name is bound to the address of its last binding. -/
theorem get?_foldl_write (history : List Write) (name : String) :
    (history.foldl write empty).bindings.get? name = lastAddress? history name := by
  rw [bindings_foldl_write]
  exact Roster.get?_foldl_insert Write.name Write.address history name

theorem firstArrivals_foldl_write (history : List Write) :
    FirstArrivals (history.foldl write empty).names (history.map Write.name) := by
  rw [names, bindings_foldl_write]
  exact Roster.firstArrivals_foldl_update Write.name Write.address
    (fun write _ => write.address) history

theorem contains_eq_isSome_find? (table : LabelTable) (query : String) :
    table.contains query = (table.find? query).isSome := by
  cases found : table.find? query with
  | none => exact (find?_eq_none_iff table query).mp found
  | some address =>
      have bound : table.contains query ≠ false := by
        rw [ne_eq, ← find?_eq_none_iff, found]
        exact Option.some_ne_none address
      exact eq_true_of_ne_false bound

/-! ## Histories -/

/-- A table answers every question by the bindings of a history. -/
structure Reflects (table : LabelTable) (history : List Write) : Prop where
  resolve_eq : ∀ query : String,
    table.resolve query = (lastAddress? history (Label.normalize query)).getD 0
  contains_eq : ∀ query : String,
    table.contains query = (lastAddress? history (Label.normalize query)).isSome
  get_eq : ∀ query : String,
    table.get query =
      (lastAddress? history (Label.normalize query)).elim (.error ⟨Label.normalize query⟩) .ok
  mem_items_iff : ∀ (name : String) (address : Int),
    (name, address) ∈ table.items ↔ lastAddress? history name = some address
  nodup_names : table.names.Nodup
  names_order : FirstArrivals table.names (history.map Write.name)

theorem reflects_foldl_write (history : List Write) :
    Reflects (history.foldl write empty) history := by
  have found (query : String) :
      (history.foldl write empty).find? query =
        lastAddress? history (Label.normalize query) :=
    get?_foldl_write history (Label.normalize query)
  have arrivals := firstArrivals_foldl_write history
  constructor
  case resolve_eq =>
    intro query
    rw [resolve, found]
    rfl
  case contains_eq =>
    intro query
    rw [contains_eq_isSome_find?, found]
  case get_eq =>
    intro query
    rw [get, found]
    cases lastAddress? history (Label.normalize query) with
    | none => rfl
    | some address => rfl
  case mem_items_iff =>
    intro name address
    rw [← get?_foldl_write]
    exact ⟨Roster.get?_of_mem, Roster.mem_of_get?⟩
  case nodup_names => exact arrivals.nodup
  case names_order => exact arrivals

/-- Two spellings of one label: no question tells them apart, and neither does a binding. -/
structure SameLabel (table : LabelTable) (left right : String) : Prop where
  resolve_eq : table.resolve left = table.resolve right
  contains_eq : table.contains left = table.contains right
  get_eq : table.get left = table.get right
  register_eq : ∀ address : Int, table.register left address = table.register right address

theorem sameLabel_of_normalize_eq
    {left right : String} (same : Label.normalize left = Label.normalize right)
    (table : LabelTable) :
    SameLabel table left right where
  resolve_eq := resolve_congr same
  contains_eq := by rw [contains, contains, same]
  get_eq := by rw [get, get, find?, find?, same]
  register_eq := by
    intro address
    rw [register, register, same]

/-- The spellings under which the labels of a table are found. -/
structure FindsSpellings (table : LabelTable) : Prop where
  /-- Every name of the table is found, whatever markers and colons are in it. -/
  of_item : ∀ item ∈ table.items,
    table.contains ("$" ++ item.1 ++ ":") = true ∧ table.resolve ("$" ++ item.1 ++ ":") = item.2
  /-- The spellings of an unmarked name denote this name and no other. -/
  of_unmarked : ∀ name : String, Label.IsUnmarked name →
    ∀ spelling ∈ Label.spellings name,
      Label.normalize spelling = name ∧ SameLabel table spelling name

theorem findsSpellings (table : LabelTable) : FindsSpellings table where
  of_item := by
    rintro ⟨name, address⟩ member
    have found : table.find? ("$" ++ name ++ ":") = some address := by
      rw [find?, Label.normalize_marker_colon]
      exact Roster.get?_of_mem member
    rw [contains_eq_isSome_find?, resolve, found]
    exact ⟨rfl, rfl⟩
  of_unmarked := by
    intro name unmarked spelling spells
    have normal := Label.normalize_of_mem_spellings unmarked spells
    have itself : Label.normalize name = name :=
      Label.normalize_of_unmarked unmarked.no_marker unmarked.no_colon
    exact ⟨normal, sameLabel_of_normalize_eq (normal.trans itself.symm) table⟩

/--
Whatever is bound and cleared, a table answers by the bindings made since the last
clearing, and finds its labels under all their spellings.
-/
theorem reflects_bindings_of_calls (calls : List (TableCall Write)) :
    TableCall.SinceClear calls (TableCall.history calls) ∧
      Reflects (TableCall.afterAll write empty calls) (TableCall.history calls) ∧
        FindsSpellings (TableCall.afterAll write empty calls) := by
  refine ⟨TableCall.sinceClear_history calls, ?_, findsSpellings _⟩
  rw [TableCall.afterAll_eq_foldl_history]
  exact reflects_foldl_write (TableCall.history calls)

/-- A name with a marker of its own is not found under itself, but with one marker more. -/
example :
    (empty.bind "$x" 9).contains "$x" = false ∧ (empty.bind "$x" 9).resolve "$$x:" = 9 := by
  decide

end LabelTable

end WordMachine
