import Mathlib.Data.List.TakeWhile
import WordMachine.Command.OutputName

/-!
# Roots of names

The last component of a name stands behind its last slash.  It has an extension
if its last dot has something other than dots in front of it, and the root of
the name is then what stands in front of that dot; otherwise the root is the
name itself.  Every name has exactly one root, and the default output is the
root followed by `.bin` (`defaultOutput_eq_iff`).
-/

namespace WordMachine

namespace Command

/-! ## Cutting behind the last mark -/

/-- The text is a front that ends in its last mark, or is empty if it has none, and the rest. -/
structure IsLastCut (mark : Char) (text front tail : List Char) : Prop where
  text_eq : text = front ++ tail
  absent : mark ∉ tail
  front_end : front = [] ∨ ∃ rest, front = rest ++ [mark]

theorem exists_isLastCut (mark : Char) (text : List Char) :
    ∃ front tail, IsLastCut mark text front tail := by
  by_cases member : mark ∈ text
  · -- The last mark is the first one from behind.
    rcases List.eq_append_cons_of_mem (List.mem_reverse.mpr member) with
      ⟨tail, front, split, absent⟩
    have turned : text = front.reverse ++ [mark] ++ tail.reverse := by
      rw [← List.reverse_reverse text, split]
      simp
    exact ⟨front.reverse ++ [mark], tail.reverse, turned, by simpa using absent,
      .inr ⟨front.reverse, rfl⟩⟩
  · exact ⟨[], text, rfl, member, .inl rfl⟩

namespace IsLastCut

variable {mark : Char} {text front tail : List Char}

theorem others (cut : IsLastCut mark text front tail) :
    ∀ character ∈ tail.reverse, (character != mark) = true := by
  intro character member
  rw [bne_iff_ne]
  rintro rfl
  exact cut.absent (List.mem_reverse.mp member)

theorem takeWhile_reverse (cut : IsLastCut mark text front tail) :
    text.reverse.takeWhile (fun character => character != mark) = tail.reverse := by
  rw [cut.text_eq, List.reverse_append, List.takeWhile_append_of_pos cut.others]
  rcases cut.front_end with rfl | ⟨rest, rfl⟩
  · simp
  · simp

theorem dropWhile_reverse (cut : IsLastCut mark text front tail) :
    text.reverse.dropWhile (fun character => character != mark) = front.reverse := by
  rw [cut.text_eq, List.reverse_append, List.dropWhile_append_of_pos cut.others]
  rcases cut.front_end with rfl | ⟨rest, rfl⟩
  · simp
  · simp

end IsLastCut

theorem splitComponent_of_isLastCut
    {name directory component : List Char} (cut : IsLastCut '/' name directory component) :
    splitComponent name = (directory, component) := by
  simp only [splitComponent, cut.takeWhile_reverse, cut.dropWhile_reverse, List.reverse_reverse]

theorem beforeLastDot?_eq_some_iff {text stem : List Char} :
    beforeLastDot? text = some stem ↔
      ∃ extension, text = stem ++ '.' :: extension ∧ '.' ∉ extension := by
  constructor
  · intro found
    rcases exists_isLastCut '.' text with ⟨front, extension, cut⟩
    simp only [beforeLastDot?, cut.dropWhile_reverse] at found
    rcases cut.front_end with rfl | ⟨rest, rfl⟩
    · cases found
    · have same : rest = stem := by simpa using found
      subst same
      exact ⟨extension, by simp [cut.text_eq], cut.absent⟩
  · rintro ⟨extension, split, last⟩
    have cut : IsLastCut '.' text (stem ++ ['.']) extension :=
      ⟨by simp [split], last, .inr ⟨stem, rfl⟩⟩
    simp [beforeLastDot?, cut.dropWhile_reverse]

/-! ## Extensions -/

/-- The stem stands in front of the last dot of the component, and does not consist of dots. -/
def HasStem (component stem : List Char) : Prop :=
  (∃ extension, component = stem ++ '.' :: extension ∧ '.' ∉ extension) ∧
    ∃ character ∈ stem, character ≠ '.'

/-- A stem starts with dots, if any, and goes on with another character. -/
theorem HasStem.exists_first {component stem : List Char} (hasStem : HasStem component stem) :
    ∃ dots first rest,
      stem = dots ++ first :: rest ∧ (∀ dot ∈ dots, (dot == '.') = true) ∧ first ≠ '.' := by
  rcases hasStem.2 with ⟨character, member, notDot⟩
  have start := List.head?_dropWhile_not (fun other => other == '.') stem
  cases undotted : stem.dropWhile (fun other => other == '.') with
  | nil => exact absurd (List.dropWhile_eq_nil_iff.mp undotted character member) (by simpa)
  | cons first rest =>
      refine ⟨stem.takeWhile (fun other => other == '.'), first, rest, ?_, ?_, ?_⟩
      · rw [← undotted, List.takeWhile_append_dropWhile]
      · exact fun dot => List.mem_takeWhile_imp
      · simpa [undotted] using start

theorem HasStem.dropExtension_eq
    {component stem : List Char} (hasStem : HasStem component stem) :
    dropExtension component = stem := by
  rcases hasStem.exists_first with ⟨dots, first, rest, rfl, allDots, notDot⟩
  rcases hasStem.1 with ⟨extension, rfl, last⟩
  have found : beforeLastDot? (first :: rest ++ '.' :: extension) = some (first :: rest) :=
    beforeLastDot?_eq_some_iff.mpr ⟨extension, rfl, last⟩
  rw [List.cons_append] at found
  simp [dropExtension, List.takeWhile_append_of_pos allDots, List.dropWhile_append_of_pos allDots,
    notDot, found]

theorem dropExtension_eq_self
    {component : List Char} (bare : ∀ stem, ¬ HasStem component stem) :
    dropExtension component = component := by
  simp only [dropExtension]
  split
  case h_1 => rfl
  case h_2 stem found =>
    rcases beforeLastDot?_eq_some_iff.mp found with ⟨extension, split, last⟩
    refine absurd ⟨⟨extension, ?_, last⟩, ?_⟩
      (bare (component.takeWhile (fun character => character == '.') ++ stem))
    · rw [List.append_assoc, ← split, List.takeWhile_append_dropWhile]
    · -- What follows the leading dots does not start with a dot, so the stem is not empty.
      have start := List.head?_dropWhile_not (fun character => character == '.') component
      cases stem with
      | nil => simp [split] at start
      | cons first rest =>
          refine ⟨first, by simp, ?_⟩
          simpa [split] using start

/-! ## The default output -/

/-- The root of a name is the name without the extension of its last component. -/
def HasRoot (name root : List Char) : Prop :=
  ∃ directory component stem,
    IsLastCut '/' name directory component ∧
      (HasStem component stem ∨ stem = component ∧ ∀ other, ¬ HasStem component other) ∧
        root = directory ++ stem

theorem HasRoot.defaultOutput_eq {name root : String} (hasRoot : HasRoot name.toList root.toList) :
    defaultOutput name = root ++ ".bin" := by
  rcases hasRoot with ⟨directory, component, stem, cut, stems, root_eq⟩
  have dropped : dropExtension component = stem := by
    rcases stems with hasStem | ⟨rfl, bare⟩
    · exact hasStem.dropExtension_eq
    · exact dropExtension_eq_self bare
  apply String.toList_inj.mp
  simp [defaultOutput, splitComponent_of_isLastCut cut, dropped, root_eq]

theorem exists_hasRoot (name : String) : ∃ root : String, HasRoot name.toList root.toList := by
  rcases exists_isLastCut '/' name.toList with ⟨directory, component, cut⟩
  by_cases extended : ∃ stem, HasStem component stem
  · rcases extended with ⟨stem, hasStem⟩
    exact ⟨String.ofList (directory ++ stem), directory, component, stem, cut, .inl hasStem,
      by simp⟩
  · exact ⟨name, directory, component, component, cut, .inr ⟨rfl, not_exists.mp extended⟩,
      cut.text_eq⟩

/-- The default output is the root of the name, followed by its own extension. -/
theorem defaultOutput_eq_iff {name root : String} :
    defaultOutput name = root ++ ".bin" ↔ HasRoot name.toList root.toList := by
  constructor
  · intro output
    rcases exists_hasRoot name with ⟨actual, hasRoot⟩
    rw [hasRoot.defaultOutput_eq] at output
    have same : actual.toList = root.toList := by
      have characters := congrArg String.toList output
      simpa using characters
    rwa [← same]
  · exact HasRoot.defaultOutput_eq

-- Dots at the start of a component and dots of a directory do not start an extension.
example : defaultOutput "lib.d/..asm" = "lib.d/..asm.bin" := by decide +kernel

end Command

end WordMachine
