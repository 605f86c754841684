import WordMachine.SourceReader
import WordMachine.Workbench.Assembly

/-!
# Loading programs

An assembler has a catalog and a capacity.  Loading reads the named sources in
order, runs both passes and gives the finished image, or the first fault.  The
workbench of a load is gone when the load ends, so loads on one assembler do
not influence each other.
-/

namespace WordMachine

/-- Why a capacity is refused. -/
inductive CapacityFault where
  | tooSmall
  | tooLarge
deriving DecidableEq

/-- The text that reports a refused capacity. -/
def CapacityFault.message : CapacityFault → String
  | .tooSmall => "Capacity must be larger than " ++ toString codeStart ++ " words"
  | .tooLarge => "Capacity must be at most " ++ toString maxCapacity ++ " words"

namespace Assembly

/-- Read a source file and take in its text. -/
def readSource (reader : SourceReader) (filename : String) : Assembly Unit := fun bench =>
  if holdsNul filename then
    .error .nulInFileName bench
  else
    match reader filename with
    | .error fault => .error (.unreadableSource filename (.file fault)) bench
    | .ok bytes =>
        match Text.Utf8.decode bytes with
        | .error fault => .error (.unreadableSource filename (.text (fault.inStream bytes))) bench
        | .ok text => .ok () (bench.survey filename text)

/-- Read source files one after the other. -/
def readSources (reader : SourceReader) : List String → Assembly Unit
  | [] => pure ()
  | filename :: rest => do
      readSource reader filename
      readSources reader rest

/-- Both passes over the named sources. -/
def run (catalog : Catalog) (reader : SourceReader) (filenames : List String) :
    Assembly Unit := do
  readSources reader filenames
  assemble catalog

end Assembly

/-- An assembler with its settings and the program it is working on, if any. -/
structure Assembler where
  catalog : Catalog
  capacity : Int
  bench? : Option Workbench

namespace Assembler

/-- An assembler for images of the given capacity. -/
def create (catalog : Catalog) (capacity : Int) : Except CapacityFault Assembler :=
  if capacity ≤ codeStart then .error .tooSmall
  else if maxCapacity < capacity then .error .tooLarge
  else .ok ⟨catalog, capacity, none⟩

/-- Whether the assembler holds no program. -/
def isIdle (assembler : Assembler) : Bool :=
  assembler.bench?.isNone

/-- The assembler after it has put its program away. -/
def clear (assembler : Assembler) : Assembler :=
  { assembler with bench? := none }

/-- Load the named sources. -/
def load (assembler : Assembler) (reader : SourceReader) (filenames : List String) :
    Except AssemblyFault Image × Assembler :=
  match Assembly.run assembler.catalog reader filenames
      (Workbench.initial assembler.capacity) with
  | .ok _ bench => (.ok bench.image, assembler.clear)
  | .error fault _ => (.error fault, assembler.clear)

end Assembler

end WordMachine
