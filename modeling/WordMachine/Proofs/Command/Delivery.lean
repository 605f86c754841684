import WordMachine.Command.Run
import WordMachine.Proofs.Command.OutputName
import WordMachine.Proofs.FileSystem
import WordMachine.Proofs.Payload.RoundTrip
import WordMachine.Proofs.Program.Lines
import WordMachine.Proofs.Program.Outcome

/-!
# What a successful run delivers

A run ends with exit code 0 in one way only: it has loaded its source files,
has printed its reports, has found a path for its output and has written the
payload of the image there (`run_outcome_eq_exit_zero_iff`).  A load leaves no
image that reading would refuse, so the file that was written gives back what
was loaded, without its warnings.
-/

namespace WordMachine

namespace Command

open Program

/-! ## Running to the end -/

/-- A load and a listing let a run go on to its output; without them it has failed. -/
theorem attempt_cases (reader : SourceReader) (settings : Settings) :
    (∃ image transcript,
      (Assembler.standard.load reader settings.infiles).1 = .ok image ∧
        (∃ listing, listingText settings image = .ok listing) ∧
          attempt reader settings = .ready image transcript) ∨
      ∃ outcome transcript,
        outcome ≠ .exit 0 ∧ attempt reader settings = .ended outcome transcript := by
  simp only [attempt]
  cases loaded : (Assembler.standard.load reader settings.infiles).1 with
  | error fault =>
      right
      simp only
      cases fault.report? with
      | some report => exact ⟨.exit 1, _, by decide, rfl⟩
      | none => exact ⟨.escaped (.assembly fault), _, Outcome.noConfusion, rfl⟩
  | ok image =>
      simp only [reportOn]
      cases listed : listingText settings image with
      | error fault => exact .inr ⟨.escaped (.listing fault), _, Outcome.noConfusion, rfl⟩
      | ok listing => exact .inl ⟨image, _, rfl, ⟨listing, listed⟩, rfl⟩

/-- The output file can be opened, and the image has a payload. -/
structure Writes (files : FileSystem) (name : String) (image : Image) (path : Path)
    (payload : List UInt8) : Prop where
  proper : holdsNul name = false
  located : files.pathToWrite name = .ok path
  encoded : Payload.encode? image = some payload

section Delivery

variable {files : FileSystem} {name : String} {image : Image} {transcript : Transcript}

theorem exists_writes_of_deliver
    (succeeds : (deliver files name image transcript).outcome = .exit 0) :
    ∃ path payload, Writes files name image path payload := by
  cases proper : holdsNul name with
  | true => simp [deliver, proper] at succeeds
  | false =>
      cases located : files.pathToWrite name with
      | error fault => simp [deliver, proper, located, endRefused] at succeeds
      | ok path =>
          cases encoded : Payload.encode? image with
          | none => simp [deliver, proper, located, endOpened, encoded] at succeeds
          | some payload => exact ⟨path, payload, proper, located, encoded⟩

theorem Writes.deliver_eq
    {path : Path} {payload : List UInt8} (writes : Writes files name image path payload)
    (transcript : Transcript) :
    deliver files name image transcript =
      ⟨.exit 0, { transcript with out := transcript.out ++ line ("Output written to " ++ name) },
        files.writeFile path payload, some (path, payload)⟩ := by
  simp [deliver, writes.proper, writes.located, endOpened, outputContent, writes.encoded]

end Delivery

/-- What a run with exit code 0 has loaded, where it has written and what. -/
structure Completes (files : FileSystem) (settings : Settings) (image : Image) (path : Path)
    (payload : List UInt8) : Prop where
  loaded : (Assembler.standard.load files.reader settings.infiles).1 = .ok image
  listed : ∃ listing, listingText settings image = .ok listing
  writes : Writes files (outputName settings) image path payload

section Run

variable {files : FileSystem} {settings : Settings}

theorem Completes.run_eq
    {image : Image} {path : Path} {payload : List UInt8}
    (completes : Completes files settings image path payload) :
    ∃ transcript,
      run files settings =
        ⟨.exit 0, transcript, files.writeFile path payload, some (path, payload)⟩ := by
  rcases completes.listed with ⟨listing, listed⟩
  simp only [run, attempt, completes.loaded, reportOn, listed]
  exact ⟨_, completes.writes.deliver_eq _⟩

theorem run_outcome_eq_exit_zero_iff :
    (run files settings).outcome = .exit 0 ↔
      ∃ image path payload, Completes files settings image path payload := by
  constructor
  · intro succeeds
    rcases attempt_cases files.reader settings with
      ⟨image, transcript, loaded, listed, ready⟩ | ⟨outcome, transcript, failed, ended⟩
    · simp only [run, ready] at succeeds
      rcases exists_writes_of_deliver succeeds with ⟨path, payload, writes⟩
      exact ⟨image, path, payload, loaded, listed, writes⟩
    · simp only [run, ended] at succeeds
      exact absurd succeeds failed
  · rintro ⟨image, path, payload, completes⟩
    rcases completes.run_eq with ⟨transcript, result⟩
    rw [result]

end Run

/-! ## The output name -/

theorem infiles_ne_nil_of_parseArguments
    {arguments : List String} {settings : Settings}
    (parsed : parseArguments arguments = .ok settings) :
    settings.infiles ≠ [] := by
  cases marked : markArguments arguments with
  | error stop => simp [parseArguments, marked, bind, Except.bind] at parsed
  | ok marks =>
      cases taken : takeMarks .start marks with
      | error stop => simp [parseArguments, marked, taken, bind, Except.bind] at parsed
      | ok progress =>
          simp only [parseArguments, marked, taken, bind, Except.bind] at parsed
          split at parsed
          case isTrue => cases parsed
          case isFalse accepted =>
            cases parsed
            rintro none
            exact accepted (by simp [none])

/-- The output is named by the arguments, or else by the root of the first source file. -/
inductive IsOutputName (settings : Settings) : String → Prop where
  | given (chosen : settings.outfile ≠ "") : IsOutputName settings settings.outfile
  | derived {first root : String} {others : List String} (unchosen : settings.outfile = "")
      (infiles_eq : settings.infiles = first :: others)
      (hasRoot : HasRoot first.toList root.toList) : IsOutputName settings (root ++ ".bin")

theorem isOutputName_outputName {settings : Settings} (named : settings.infiles ≠ []) :
    IsOutputName settings (outputName settings) := by
  rw [outputName]
  split
  case isTrue unchosen =>
    rcases List.exists_cons_of_ne_nil named with ⟨first, others, infiles_eq⟩
    rcases exists_hasRoot first with ⟨root, hasRoot⟩
    rw [infiles_eq, List.headD_cons, defaultOutput_eq_iff.mpr hasRoot]
    exact .derived unchosen infiles_eq hasRoot
  case isFalse chosen => exact .given chosen

/-! ## The output file -/

theorem create_standard :
    Assembler.create Catalog.standard maxCapacity = .ok Assembler.standard :=
  rfl

/-- What the standard assembler loads comes back from its payload, without its warnings. -/
theorem decode_of_loaded
    {reader : SourceReader} {filenames : List String} {image : Image} {payload : List UInt8}
    (loaded : (Assembler.standard.load reader filenames).1 = .ok image)
    (encoded : Payload.encode? image = some payload) :
    Payload.decode payload = .ok { image with warnings := #[] } := by
  rcases (load_eq_ok_iff create_standard).mp loaded with ⟨items, loads⟩
  have capacitySmall : image.capacity ≤ maxCapacity := Int.le_of_eq loads.capacity_eq
  rcases Payload.exists_restored_of_encode? encoded capacitySmall
      loads.sound.length_le_capacity with ⟨decoded, decodes, restores⟩
  rw [decodes, restores.eq_of_sound loads.sound]

/-- The result has one file more, or one file changed, and that file stores what was loaded. -/
structure Delivers (files : FileSystem) (settings : Settings) (result : Result) (image : Image)
    (name : String) (path : Path) (payload : List UInt8) : Prop where
  loaded : (Assembler.standard.load files.reader settings.infiles).1 = .ok image
  named : IsOutputName settings name
  located : files.pathToWrite name = .ok path
  written : result.written? = some (path, payload)
  content : result.files.content? path = some payload
  others : ∀ other, other ≠ path → result.files.node? other = files.node? other
  /-- The output file is found again by its name. -/
  reads : result.files.read name = .ok payload
  decodes : Payload.decode payload = .ok { image with warnings := #[] }

/-- A run with exit code 0 delivers what it loaded, and touches no other file. -/
theorem run_delivers_loaded
    {arguments : List String} {settings : Settings}
    (parsed : parseArguments arguments = .ok settings) {files : FileSystem}
    (succeeds : (run files settings).outcome = .exit 0) :
    ∃ image name path payload,
      Delivers files settings (run files settings) image name path payload := by
  rcases run_outcome_eq_exit_zero_iff.mp succeeds with ⟨image, path, payload, completes⟩
  rcases completes.run_eq with ⟨transcript, result⟩
  have located := completes.writes.located
  have below := FileSystem.names_ne_nil_of_pathToWrite located
  rw [result]
  refine ⟨image, outputName settings, path, payload, ?_⟩
  constructor
  case loaded => exact completes.loaded
  case named => exact isOutputName_outputName (infiles_ne_nil_of_parseArguments parsed)
  case located => exact located
  case written => rfl
  case content =>
    apply FileSystem.content?_eq_some_iff.mpr
    rw [FileSystem.node?_writeFile files payload below, if_pos rfl]
  case others =>
    intro other elsewhere
    rw [FileSystem.node?_writeFile files payload below, if_neg elsewhere]
  case reads => exact FileSystem.read_writeFile located payload
  case decodes => exact decode_of_loaded completes.loaded completes.writes.encoded

/-- The text of a program with a label that is not defined. -/
def stockedText : String := "entry\n$x: push &y\njmp *x 7"

/-- A source file with dots in its name, and beside it what an earlier run has left. -/
def stockedFiles : FileSystem :=
  (FileSystem.empty.install (.working ["lib.d", "..prog.v1.asm"])
    (.file (Text.Utf8.encode stockedText))).install
      (.working ["lib.d", "..prog.v1.bin"]) (.file [1, 2, 3])

/-- What the arguments `-vW` and the name of that file ask for. -/
def stockedSettings : Settings :=
  ⟨["lib.d/..prog.v1.asm"], "", true, false, false, true⟩

theorem run_delivers_stockedFiles :
    parseArguments ["-vW", "lib.d/..prog.v1.asm"] = .ok stockedSettings ∧
      outputName stockedSettings = "lib.d/..prog.v1.bin" ∧
        (run stockedFiles stockedSettings).outcome = .exit 0 ∧
          ∃ image name path payload,
            Delivers stockedFiles stockedSettings (run stockedFiles stockedSettings) image name
              path payload := by
  have parsed : parseArguments ["-vW", "lib.d/..prog.v1.asm"] = .ok stockedSettings := rfl
  have texts : ∀ filename ∈ stockedSettings.infiles,
      ∃ text, readText stockedFiles.reader filename = .ok text := by
    rw [stockedSettings, List.forall_mem_singleton]
    exact readText_of_isSource (by decide) ⟨stockedText, by decide +kernel⟩
  have tokens : retained (sourceTokens stockedFiles.reader stockedSettings.infiles) =
      ["push", "&y", "jmp", "*x", "7"] := by
    decide +kernel
  have short : ∀ token ∈ ["push", "&y", "jmp", "*x", "7"], Numeral.IsShort token := by
    intro token member
    apply Numeral.isShort_of_length_le
    revert token
    decide
  have fits : programSize Catalog.standard ["push", "&y", "jmp", "*x", "7"] ≤ maxCapacity := by
    decide +kernel
  -- The image is not evaluated, since it has as many words as an image can have.
  rcases exists_image_of_fits Catalog.isEncodable_standard create_standard texts
    (tokens ▸ short) (tokens ▸ fits) with ⟨image, loaded⟩
  rcases (load_eq_ok_iff create_standard).mp loaded with ⟨items, loads⟩
  have writable : Payload.IsWritable image := by
    apply Payload.isWritable_of_sound loads.sound (Int.le_of_eq loads.capacity_eq)
    · rw [loads.entry_eq]
      decide +kernel
    · rw [loads.labels_eq]
      decide +kernel
    · rw [loads.lines_eq]
      decide +kernel
    · rw [loads.labels_eq]
      decide +kernel
    · rw [loads.lines_eq]
      decide +kernel
  have succeeds : (run stockedFiles stockedSettings).outcome = .exit 0 := by
    apply run_outcome_eq_exit_zero_iff.mpr
    refine ⟨image, .working ["lib.d", "..prog.v1.bin"], _, loaded, ⟨_, rfl⟩, ?_, ?_,
      Payload.encode?_eq_some_iff.mpr ⟨writable, rfl⟩⟩
    · decide +kernel
    · decide +kernel
  exact ⟨parsed, by decide +kernel, succeeds, run_delivers_loaded parsed succeeds⟩

end Command

end WordMachine
