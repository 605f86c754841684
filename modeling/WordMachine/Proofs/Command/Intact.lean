import WordMachine.Proofs.Command.Reports
import WordMachine.Proofs.Program.Encodability

/-!
# What a failed run leaves

A run that fails before its output file is opened leaves all files as they were,
and so does one that cannot open it.  The payload is made only after the output
file was opened, so an image that does not fit its payload costs the user what
the output file held.  This is the only way in which a failed run changes a file.
-/

namespace WordMachine

namespace Command

open Program

/-! ## Opening the output file -/

/-- The source files are loaded, and the output file can be opened. -/
structure Opens (files : FileSystem) (settings : Settings) (image : Image) (path : Path) :
    Prop where
  loaded : (Assembler.standard.load files.reader settings.infiles).1 = .ok image
  proper : holdsNul (outputName settings) = false
  located : files.pathToWrite (outputName settings) = .ok path

theorem Opens.run_eq
    {files : FileSystem} {settings : Settings} {image : Image} {path : Path}
    (opens : Opens files settings image path) :
    ∃ outcome transcript,
      run files settings =
        ⟨outcome, transcript, files.writeFile path (outputContent image),
          some (path, outputContent image)⟩ := by
  rcases exists_run_eq_deliver opens.loaded with ⟨transcript, delivered⟩
  rw [delivered]
  simp only [deliver, opens.proper, opens.located]
  exact ⟨_, _, rfl⟩

theorem intact_of_fault
    {files : FileSystem} {settings : Settings} {fault : AssemblyFault}
    (failed : (Assembler.standard.load files.reader settings.infiles).1 = .error fault) :
    (run files settings).files = files ∧ (run files settings).written? = none := by
  simp only [run, attempt, failed]
  cases fault.report? with
  | none => exact ⟨rfl, rfl⟩
  | some report => exact ⟨rfl, rfl⟩

/-- A run that does not open its output file changes no file. -/
theorem intact_or_opens (files : FileSystem) (settings : Settings) :
    ((run files settings).files = files ∧ (run files settings).written? = none) ∨
      ∃ image path, Opens files settings image path := by
  cases loaded : (Assembler.standard.load files.reader settings.infiles).1 with
  | error fault => exact .inl (intact_of_fault loaded)
  | ok image =>
      rcases exists_run_eq_deliver loaded with ⟨transcript, delivered⟩
      cases proper : holdsNul (outputName settings) with
      | true => simp [delivered, deliver, proper]
      | false =>
          cases located : files.pathToWrite (outputName settings) with
          | error fault => simp [delivered, deliver, proper, located]
          | ok path => exact .inr ⟨image, path, loaded, proper, located⟩

/-! ## Losing the output -/

/-- The output file can be opened, but the image that was loaded does not fit a payload. -/
structure LosesOutput (files : FileSystem) (settings : Settings) (path : Path) : Prop where
  unfit : ∃ image,
    (Assembler.standard.load files.reader settings.infiles).1 = .ok image ∧
      ¬ Payload.FitsFields image
  proper : holdsNul (outputName settings) = false
  located : files.pathToWrite (outputName settings) = .ok path

/-- How a run leaves the files if it does not end with exit code 0. -/
structure LeavesFiles (files : FileSystem) (settings : Settings) (result : Result) : Prop where
  /-- Nothing is written, unless the output is lost. -/
  intact : (∀ path, ¬ LosesOutput files settings path) →
    result.files = files ∧ result.written? = none
  /-- A failure that the run reports itself does not lose the output. -/
  of_exit : ∀ code, result.outcome = .exit code → ∀ path, ¬ LosesOutput files settings path
  /-- If the output is lost, its file is there without content, and every other file is as before. -/
  emptied : ∀ path, LosesOutput files settings path →
    result.outcome = .escaped .unencodable ∧ result.written? = some (path, []) ∧
      result.files.content? path = some [] ∧
        ∀ other, other ≠ path → result.files.node? other = files.node? other

section

variable {files : FileSystem} {settings : Settings}

theorem LosesOutput.run_eq {path : Path} (loses : LosesOutput files settings path) :
    ∃ transcript,
      run files settings =
        ⟨.escaped .unencodable, transcript, files.writeFile path [], some (path, [])⟩ := by
  rcases loses.unfit with ⟨image, loaded, unfit⟩
  rcases (load_eq_ok_iff create_standard).mp loaded with ⟨items, loads⟩
  rcases exists_run_eq_deliver loaded with ⟨transcript, delivered⟩
  have unencodable := loads.encode?_eq_none_iff.mpr unfit
  rw [delivered]
  exact ⟨_, deliver_of_unencodable loses.proper loses.located unencodable _⟩

theorem LosesOutput.outcome_eq {path : Path} (loses : LosesOutput files settings path) :
    (run files settings).outcome = .escaped .unencodable := by
  rcases loses.run_eq with ⟨transcript, result⟩
  rw [result]

theorem LosesOutput.content?_eq {path : Path} (loses : LosesOutput files settings path) :
    (run files settings).files.content? path = some [] := by
  have below := FileSystem.names_ne_nil_of_pathToWrite loses.located
  rcases loses.run_eq with ⟨transcript, result⟩
  rw [result]
  apply FileSystem.content?_eq_some_iff.mpr
  rw [FileSystem.node?_writeFile files [] below, if_pos rfl]

/-- A run that writes something ends with exit code 0 or loses its output. -/
theorem intact_or_losesOutput (failed : (run files settings).outcome ≠ .exit 0) :
    ((run files settings).files = files ∧ (run files settings).written? = none) ∨
      ∃ path, LosesOutput files settings path := by
  rcases intact_or_opens files settings with intact | ⟨image, path, opens⟩
  · exact .inl intact
  · right
    rcases (load_eq_ok_iff create_standard).mp opens.loaded with ⟨items, loads⟩
    cases encoded : Payload.encode? image with
    | none =>
        exact ⟨path, ⟨image, opens.loaded, loads.encode?_eq_none_iff.mp encoded⟩, opens.proper,
          opens.located⟩
    | some payload =>
        have writes : Writes files (outputName settings) image path payload :=
          ⟨opens.proper, opens.located, encoded⟩
        rcases exists_run_eq_deliver opens.loaded with ⟨transcript, delivered⟩
        rw [delivered, writes.deliver_eq] at failed
        exact absurd rfl failed

/--
A failed run leaves every file as it was, except that it empties its output file
if the image it loaded does not fit a payload.
-/
theorem leavesFiles_of_failed (failed : (run files settings).outcome ≠ .exit 0) :
    LeavesFiles files settings (run files settings) := by
  constructor
  case intact =>
    intro keeps
    rcases intact_or_losesOutput failed with intact | ⟨path, loses⟩
    · exact intact
    · exact absurd loses (keeps path)
  case of_exit =>
    intro code ended path loses
    rw [loses.outcome_eq] at ended
    cases ended
  case emptied =>
    intro path loses
    have below := FileSystem.names_ne_nil_of_pathToWrite loses.located
    rcases loses.run_eq with ⟨transcript, result⟩
    refine ⟨loses.outcome_eq, by rw [result], loses.content?_eq, ?_⟩
    intro other elsewhere
    rw [result, FileSystem.node?_writeFile files [] below, if_neg elsewhere]

end

/-! ## A label that is too long -/

/-- The definition of a label whose name has the given number of characters. -/
def definitionOf (count : Nat) : String :=
  String.ofList ('$' :: List.replicate count 'x')

section Definition

variable {count : Nat}

theorem mem_definitionOf {character : Char} (member : character ∈ (definitionOf count).toList) :
    character = '$' ∨ character = 'x' := by
  rw [definitionOf, String.toList_ofList] at member
  exact (List.mem_cons.mp member).imp_right List.eq_of_mem_replicate

theorem isWord_definitionOf : Text.IsWord (definitionOf count) where
  ne_empty := by
    intro empty
    have characters := congrArg String.toList empty
    rw [definitionOf, String.toList_ofList] at characters
    cases characters
  isUnbroken := by
    intro character member
    rcases mem_definitionOf member with rfl | rfl
    · decide
    · decide

theorem role_definitionOf : Token.role (definitionOf count) = .definition := by
  rw [Token.role, if_pos]
  rw [definitionOf, String.toList_ofList]
  rfl

theorem normalize_definitionOf :
    Label.normalize (definitionOf count) = String.ofList (List.replicate count 'x') := by
  have last : (List.replicate count 'x').getLast? ≠ some ':' := by
    intro colon
    have member := List.mem_of_getLast? colon
    exact absurd (List.eq_of_mem_replicate member) (by decide)
  simp [Label.normalize, definitionOf, Label.dropMarker, Label.marker, Label.dropColon, last]

theorem length_encode_replicate :
    (Text.Utf8.encode (String.ofList (List.replicate count 'x'))).length = count := by
  rw [Text.Utf8.length_encode_of_ascii, String.toList_ofList, List.length_replicate]
  intro character member
  rw [String.toList_ofList] at member
  rw [List.eq_of_mem_replicate member]
  decide

/-- The output of an earlier run, and a source file that defines the label. -/
def definingFiles (count : Nat) : FileSystem :=
  (FileSystem.empty.writeFile (.working ["o"]) (Text.Utf8.encode "old")).writeFile
    (.working ["p.asm"]) (Text.Utf8.encode (definitionOf count))

/-- What the arguments `p.asm -o o` ask for. -/
def definingSettings : Settings :=
  ⟨["p.asm"], "o", false, false, false, false⟩

theorem opened_definingFiles (small : count < maxFileSize) :
    (definingFiles count).reader "p.asm" = .ok (Text.Utf8.encode (definitionOf count)) := by
  have held : (definingFiles count).read "p.asm" = .ok (Text.Utf8.encode (definitionOf count)) :=
    FileSystem.read_writeFile (by decide +kernel) _
  refine SourceReader.ofContents_eq_ok_iff.mpr ⟨held, ?_⟩
  rw [Text.Utf8.length_encode_of_ascii, definitionOf, String.toList_ofList, List.length_cons,
    List.length_replicate]
  · exact small
  · intro character member
    rcases mem_definitionOf member with rfl | rfl
    · decide
    · decide

theorem sourceTokens_definingFiles (small : count < maxFileSize) :
    sourceTokens (definingFiles count).reader ["p.asm"] = [definitionOf count] := by
  apply sourceTokens_of_isWord (by decide) _ isWord_definitionOf
  · intro comment
    rcases mem_definitionOf comment with equal | equal
    · exact absurd equal (by decide)
    · exact absurd equal (by decide)
  · exact opened_definingFiles small

theorem exists_unfit_definingFiles (long : 65535 < count) (small : count < maxFileSize) :
    ∃ image,
      (Assembler.standard.load (definingFiles count).reader ["p.asm"]).1 = .ok image ∧
        ¬ Payload.FitsFields image := by
  have texts : ∀ filename ∈ ["p.asm"],
      ∃ text, readText (definingFiles count).reader filename = .ok text := by
    rw [List.forall_mem_singleton]
    exact ⟨_, readText_eq_ok (by decide) (opened_definingFiles small)⟩
  have nothing : retained (sourceTokens (definingFiles count).reader ["p.asm"]) = [] := by
    simp [sourceTokens_definingFiles small, retained, role_definitionOf]
  have short : ∀ token ∈ retained (sourceTokens (definingFiles count).reader ["p.asm"]),
      Numeral.IsShort token := by
    simp [nothing]
  have fits :
      programSize Catalog.standard (retained (sourceTokens (definingFiles count).reader ["p.asm"])) ≤
        maxCapacity := by
    rw [nothing]
    decide +kernel
  rcases exists_image_of_fits Catalog.isEncodable_standard create_standard texts short fits with
    ⟨image, loaded⟩
  rcases (load_eq_ok_iff create_standard).mp loaded with ⟨items, loads⟩
  refine ⟨image, loaded, fun fitsFields => ?_⟩
  -- The label stands in the table under its name, so the name has to fit.
  have bound :
      image.labels.find? (definitionOf count) = some (codeStart + (retained []).length) := by
    rw [loads.labels_eq, find?_surveyed, sourceTokens_definingFiles small]
    exact @Workbench.find?_foldl_absorb_of_last [] [] _ _ (Workbench.initial maxCapacity)
      role_definitionOf rfl (by simp)
  have listed := List.mem_map_of_mem (f := Prod.fst) (Roster.mem_of_get? bound)
  have name_fits := fitsFields.label_names _ listed
  simp only [normalize_definitionOf, length_encode_replicate] at name_fits
  omega

theorem losesOutput_definingFiles (long : 65535 < count) (small : count < maxFileSize) :
    LosesOutput (definingFiles count) definingSettings (.working ["o"]) where
  unfit := exists_unfit_definingFiles long small
  proper := by decide
  located := rfl

end Definition

theorem parseArguments_definingSettings :
    parseArguments ["p.asm", "-o", "o"] = .ok definingSettings :=
  rfl

/-- The run loses the output of the earlier run, and nothing else. -/
theorem leavesFiles_definingFiles :
    parseArguments ["p.asm", "-o", "o"] = .ok definingSettings ∧
      (run (definingFiles 65536) definingSettings).outcome ≠ .exit 0 ∧
        LosesOutput (definingFiles 65536) definingSettings (.working ["o"]) ∧
          LeavesFiles (definingFiles 65536) definingSettings
            (run (definingFiles 65536) definingSettings) := by
  have loses := losesOutput_definingFiles (show 65535 < 65536 by decide) (by decide)
  have failed : (run (definingFiles 65536) definingSettings).outcome ≠ .exit 0 := by
    rw [loses.outcome_eq]
    exact Outcome.noConfusion
  exact ⟨parseArguments_definingSettings, failed, loses, leavesFiles_of_failed failed⟩

/-- A failed run need not leave the contents of files as they were. -/
theorem run_definingFiles_changes_content :
    ¬ ∀ (arguments : List String) (settings : Settings) (files : FileSystem),
      parseArguments arguments = .ok settings → (run files settings).outcome ≠ .exit 0 →
        ∀ path, (run files settings).files.content? path = files.content? path := by
  intro intact
  have loses := losesOutput_definingFiles (show 65535 < 65536 by decide) (by decide)
  have failed : (run (definingFiles 65536) definingSettings).outcome ≠ .exit 0 := by
    rw [loses.outcome_eq]
    exact Outcome.noConfusion
  have before :
      (definingFiles 65536).content? (.working ["o"]) = some (Text.Utf8.encode "old") :=
    rfl
  have same := intact _ _ _ parseArguments_definingSettings failed (.working ["o"])
  rw [before, loses.content?_eq] at same
  exact absurd same (by decide)

end Command

end WordMachine
