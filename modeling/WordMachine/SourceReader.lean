import WordMachine.FileFault

/-!
# Readers of files

What a load knows of files is how to read one by its name.  A file has at most as
many bytes as a signed offset of 64 bits can count, and a larger one cannot be
opened.  Every line of a file therefore has fewer tokens than can be counted.

Names are texts.  A name with a lone surrogate is no text, so the model does not
speak of it: such a name is refused before any file is looked for, in a way that
is not reported as a fault of the file.
-/

namespace WordMachine

/-- The largest number of bytes that a file can have. -/
def maxFileSize : Nat := 0x7FFFFFFFFFFFFFFF

/-- A way to read files by name. -/
structure SourceReader where
  read : String → Except FileFault (List UInt8)
  /-- No file is larger than files can be. -/
  length_le : ∀ {name : String} {bytes : List UInt8},
    read name = .ok bytes → bytes.length ≤ maxFileSize

namespace SourceReader

instance : CoeFun SourceReader (fun _ => String → Except FileFault (List UInt8)) :=
  ⟨SourceReader.read⟩

/-- Refuse a content that is larger than files can be. -/
def checkSize (bytes : List UInt8) : Except FileFault (List UInt8) :=
  if bytes.length ≤ maxFileSize then .ok bytes else .error .tooLarge

theorem checkSize_eq_ok_iff {bytes content : List UInt8} :
    checkSize bytes = .ok content ↔ bytes = content ∧ content.length ≤ maxFileSize := by
  rw [checkSize]
  split
  case isTrue small =>
    rw [Except.ok.injEq]
    constructor
    · rintro rfl
      exact ⟨rfl, small⟩
    · exact And.left
  case isFalse large =>
    simp only [reduceCtorEq, false_iff]
    rintro ⟨rfl, small⟩
    exact large small

/-- The reader of the contents that files have by name, as far as they can be opened. -/
def ofContents (content : String → Except FileFault (List UInt8)) : SourceReader where
  read name := content name >>= checkSize
  length_le := by
    intro name bytes found
    cases opened : content name with
    | error fault =>
        rw [opened] at found
        cases found
    | ok held =>
        rw [opened] at found
        exact (checkSize_eq_ok_iff.mp found).2

theorem ofContents_eq_ok_iff
    {content : String → Except FileFault (List UInt8)} {name : String} {bytes : List UInt8} :
    ofContents content name = .ok bytes ↔
      content name = .ok bytes ∧ bytes.length ≤ maxFileSize := by
  show (content name >>= checkSize) = .ok bytes ↔ _
  cases content name with
  | error fault =>
      constructor
      · intro impossible
        cases impossible
      · rintro ⟨impossible, _⟩
        cases impossible
  | ok held =>
      show checkSize held = .ok bytes ↔ _
      rw [checkSize_eq_ok_iff, Except.ok.injEq]

end SourceReader

end WordMachine
