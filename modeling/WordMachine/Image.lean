import WordMachine.Diagnostic
import WordMachine.Label
import WordMachine.SignedIndex

/-!
# Images

An image is an assembled program: its words, the part of them in use, the
entry address, the label and line tables, and the warnings of its assembly.
-/

namespace WordMachine

/-- An assembled program. -/
structure Image where
  entry : Int
  length : Int
  capacity : Int
  code : Array Int
  labels : LabelTable
  lines : LineTable
  warnings : Array Diagnostic

namespace Image

/-- The image of the given capacity that holds zeros only. -/
def blank (capacity : Int) : Image where
  entry := codeStart
  length := codeStart
  capacity := capacity
  code := Array.replicate capacity.toNat 0
  labels := .empty
  lines := .empty
  warnings := #[]

/-- Release everything the image holds. -/
def close (image : Image) : Image :=
  { image with
    length := 0
    code := #[]
    labels := .empty
    lines := .empty
    warnings := #[] }

/-- The words in use; a negative length leaves out that many words at the end. -/
def usedCode (image : Image) : List Int :=
  image.code.toList.take (SignedIndex.frontCount image.code.size image.length)

/-- Write a word at a signed index, if the image has that word. -/
def poke? (image : Image) (index word : Int) : Option Image :=
  match SignedIndex.resolve? image.code.size index with
  | none => none
  | some position => some { image with code := image.code.setIfInBounds position word }

/-- The source line that produced an address. -/
def locate (image : Image) (address : Int) : Except LengthFault SourceLine :=
  (image.lines.sourceAt? address).map (fun source? => source?.getD .unknown)

/-- The image with one more warning. -/
def addWarning (image : Image) (warning : Diagnostic) : Image :=
  { image with warnings := image.warnings.push warning }

/-- Add a warning about the token at an address, or about no token. -/
def warn (image : Image) (message : String) (address? : Option Int) :
    Except LengthFault Image :=
  match address? with
  | none => .ok (image.addWarning ⟨message, .unknown⟩)
  | some address =>
      (image.locate address).map (fun source => image.addWarning ⟨message, source⟩)

/-- A warning adds to the warnings and changes nothing else. -/
theorem eq_addWarning_of_warn
    {image warned : Image} {message : String} {address? : Option Int}
    (added : image.warn message address? = .ok warned) :
    ∃ source, warned = image.addWarning ⟨message, source⟩ := by
  cases address? with
  | none =>
      cases added
      exact ⟨_, rfl⟩
  | some address =>
      simp only [warn] at added
      cases located : image.locate address with
      | error fault =>
          rw [located] at added
          cases added
      | ok source =>
          rw [located] at added
          cases added
          exact ⟨source, rfl⟩

end Image

end WordMachine
