import WordMachine.Layout
import WordMachine.Numeral
import WordMachine.Roster
import WordMachine.Text.Quoted

/-!
# Labels

A label is defined by its name behind the marker `$`, and a colon may end the
definition.  Marker and colon are spelling only: `loop`, `$loop`, `loop:` and
`$loop:` name the same label.  The label table lists names in the order in
which they were first bound, and the latest binding of a name wins.
-/

namespace WordMachine

namespace Label

/-- The marker in front of a definition. -/
def marker : Char := '$'

/-- The characters of a name without one leading marker. -/
def dropMarker : List Char → List Char
  | [] => []
  | first :: rest => if first = marker then rest else first :: rest

/-- The characters of a name without one final colon. -/
def dropColon (characters : List Char) : List Char :=
  if characters.getLast? = some ':' then characters.dropLast else characters

/-- The name that a spelling of a label denotes. -/
def normalize (name : String) : String :=
  String.ofList (dropColon (dropMarker name.toList))

end Label

/-- The addresses bound to label names. -/
structure LabelTable where
  bindings : Roster String Int

/-- A look-up asked for a name that has no binding. -/
structure UnknownLabel where
  name : String
deriving DecidableEq

/-- The text that reports an unknown label. -/
def UnknownLabel.message (fault : UnknownLabel) : String :=
  Text.Quoted.text fault.name

namespace LabelTable

/-- The table without bindings. -/
def empty : LabelTable := ⟨Roster.empty⟩

/-- Bind a name as it stands. -/
def bind (table : LabelTable) (name : String) (address : Int) : LabelTable :=
  ⟨table.bindings.insert name address⟩

/-- Bind the name that a spelling denotes. -/
def register (table : LabelTable) (spelling : String) (address : Int) : LabelTable :=
  table.bind (Label.normalize spelling) address

/-- The address of the label that a spelling denotes, if it is bound. -/
def find? (table : LabelTable) (spelling : String) : Option Int :=
  table.bindings.get? (Label.normalize spelling)

/-- The address of a label, or address zero if there is no such label. -/
def resolve (table : LabelTable) (spelling : String) : Int :=
  (table.find? spelling).getD unresolvedAddress

/-- The address of a label that has to be bound. -/
def get (table : LabelTable) (spelling : String) : Except UnknownLabel Int :=
  match table.find? spelling with
  | some address => .ok address
  | none => .error ⟨Label.normalize spelling⟩

/-- Whether the label that a spelling denotes is bound. -/
def contains (table : LabelTable) (spelling : String) : Bool :=
  table.bindings.contains (Label.normalize spelling)

/-- Names and addresses in order of first binding. -/
def items (table : LabelTable) : List (String × Int) :=
  table.bindings.entries

/-- The names in order of first binding. -/
def names (table : LabelTable) : List String :=
  table.bindings.keys

/-- The number of labels. -/
def size (table : LabelTable) : Nat :=
  table.bindings.size

/-- The names bound to an address, in order of first binding. -/
def namesAt (table : LabelTable) (address : Int) : List String :=
  (table.items.filter (fun item => item.2 == address)).map Prod.fst

/-- The table as one line of text, if its addresses can be written. -/
def describe (table : LabelTable) : Except LongNumeral String := do
  let shown ← table.items.mapM (fun item => do
    let address ← Numeral.write item.2
    return Text.Quoted.text item.1 ++ ": " ++ address)
  return "LabelTable(\x7b" ++ String.intercalate ", " shown ++ "\x7d)"

/-- The table that holds the registers. -/
def withRegisters : LabelTable :=
  registers.foldl (fun table register => table.register register.1 register.2) empty

end LabelTable

end WordMachine
