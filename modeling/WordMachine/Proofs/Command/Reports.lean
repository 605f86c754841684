import WordMachine.Proofs.Command.Delivery
import WordMachine.Proofs.Program.Listing

/-!
# What the reporting flags can change

The flags of a run select from reports that are the same whatever the flags are:
the warnings, the summary, the labels and the listing of the loaded image.  One
equation says this for all settings of the flags at once (`exists_run_eq`), so two
runs that differ in their flags only end alike, leave the same files and print
parts of the same text.  The equation needs the listing of a loaded image to
exist, since a listing that failed would end the run of those who asked for it.
-/

namespace WordMachine

namespace Command

open Program

/-! ## Reports and last lines -/

/-- The reports that a run can be asked for, line by line. -/
structure Reports where
  warnings : List String
  summary : List String
  labels : List String
  listing : List String

/-- A run without an image has nothing to report. -/
def Reports.none : Reports := ⟨[], [], [], []⟩

/-- The reports on an image with the given listing. -/
def Reports.on (image : Image) (listing : String) : Reports where
  warnings := image.warnings.toList.map Diagnostic.render
  summary :=
    [ "Assembled " ++ toString (image.length - codeStart) ++ " words",
      "Entry point: " ++ toString image.entry,
      "Source lines: " ++ toString image.lines.size ]
  labels := (sortedLabels image).map (fun item => item.1 ++ ": " ++ toString item.2)
  listing := [listing]

/-- The line that a run prints after its reports, if any, on either stream. -/
structure LastLine where
  out? : Option String
  err? : Option String

/-- What a run with these settings prints. -/
def transcriptOf (settings : Settings) (reports : Reports) (last : LastLine) : Transcript where
  out :=
    (if settings.verbose then lines reports.summary else "") ++
      (if settings.dumpLabels then lines reports.labels else "") ++
        (if settings.disasm then lines reports.listing else "") ++
          lines last.out?.toList
  err :=
    (if settings.noWarnings then "" else lines (reports.warnings.map ("Warning: " ++ ·))) ++
      lines last.err?.toList

@[simp]
theorem lines_nil : lines [] = "" := by
  simp [lines, String.join]

@[simp]
theorem lines_singleton (text : String) : lines [text] = line text := by
  simp [lines, String.join]

theorem transcriptOf_none (settings : Settings) (last : LastLine) :
    transcriptOf settings .none last = ⟨lines last.out?.toList, lines last.err?.toList⟩ := by
  simp [transcriptOf, Reports.none]

theorem transcriptOf_out
    (settings : Settings) (reports : Reports) (text : String) :
    transcriptOf settings reports ⟨some text, none⟩ =
      { transcriptOf settings reports ⟨none, none⟩ with
        out := (transcriptOf settings reports ⟨none, none⟩).out ++ line text } := by
  simp [transcriptOf]

theorem transcriptOf_err
    (settings : Settings) (reports : Reports) (text : String) :
    transcriptOf settings reports ⟨none, some text⟩ =
      { transcriptOf settings reports ⟨none, none⟩ with
        err := (transcriptOf settings reports ⟨none, none⟩).err ++ line text } := by
  simp [transcriptOf]

/-! ## One run under all flags -/

/-- The listing of what the standard assembler loads never fails. -/
theorem exists_render_of_loaded
    {reader : SourceReader} {filenames : List String} {image : Image}
    (loaded : (Assembler.standard.load reader filenames).1 = .ok image) :
    ∃ listing, Listing.render image Catalog.standard = .ok listing := by
  rcases (load_eq_ok_iff create_standard).mp loaded with ⟨items, loads⟩
  have inside := loads.sound.length_le_capacity
  have size := loads.sound.size_eq_capacity
  have bound : image.length ≤ image.code.size := by omega
  exact Listing.exists_render loads.hasWritableParts bound Catalog.hasArities_standard

/-- A loaded image is reported on, and the run goes on to its output. -/
theorem attempt_of_loaded
    {reader : SourceReader} {settings : Settings} {image : Image} {listing : String}
    (loaded : (Assembler.standard.load reader settings.infiles).1 = .ok image)
    (listed : Listing.render image Catalog.standard = .ok listing) :
    attempt reader settings =
      .ready image (transcriptOf settings (.on image listing) ⟨none, none⟩) := by
  have shown :
      listingText settings image =
        .ok (if settings.disasm then lines [listing] else "") := by
    cases asked : settings.disasm with
    | true => simp [listingText, asked, listed, Except.map]
    | false => simp [listingText, asked]
  have warned :
      warningText settings image =
        if settings.noWarnings then ""
        else lines ((Reports.on image listing).warnings.map ("Warning: " ++ ·)) := by
    rw [warningText, Reports.on, List.map_map]
    rfl
  simp only [attempt, loaded, reportOn, shown, warned]
  simp [transcriptOf, Reports.on, summaryText, labelText]

theorem exists_run_eq_deliver
    {files : FileSystem} {settings : Settings} {image : Image}
    (loaded : (Assembler.standard.load files.reader settings.infiles).1 = .ok image) :
    ∃ transcript,
      run files settings = deliver files (outputName settings) image transcript := by
  rcases exists_render_of_loaded loaded with ⟨listing, listed⟩
  simp only [run, attempt_of_loaded loaded listed]
  exact ⟨_, rfl⟩

/-- An image without a payload leaves the output file empty. -/
theorem deliver_of_unencodable
    {files : FileSystem} {name : String} {path : Path} {image : Image}
    (proper : holdsNul name = false) (located : files.pathToWrite name = .ok path)
    (unencodable : Payload.encode? image = none) (transcript : Transcript) :
    deliver files name image transcript =
      ⟨.escaped .unencodable, transcript, files.writeFile path [], some (path, [])⟩ := by
  simp [deliver, proper, located, endOpened, outputContent, unencodable]

/-- Delivering adds at most a last line to what was printed before. -/
theorem exists_deliver_eq (files : FileSystem) (name : String) (image : Image) :
    ∃ outcome last left written?,
      ∀ settings reports,
        deliver files name image (transcriptOf settings reports ⟨none, none⟩) =
          ⟨outcome, transcriptOf settings reports last, left, written?⟩ := by
  cases proper : holdsNul name with
  | true =>
      refine ⟨.escaped .nulInFileName, ⟨none, none⟩, files, none, fun settings reports => ?_⟩
      simp only [deliver, proper, if_true]
  | false =>
      cases located : files.pathToWrite name with
      | error fault =>
          rcases (⟨_, rfl⟩ : ∃ text, writeFaultLine name fault = line text) with ⟨text, shown⟩
          refine ⟨.exit 1, ⟨none, some text⟩, files, none, fun settings reports => ?_⟩
          rw [transcriptOf_err, ← shown]
          simp [deliver, proper, located, endRefused]
      | ok path =>
          cases encoded : Payload.encode? image with
          | none =>
              refine ⟨.escaped .unencodable, ⟨none, none⟩, files.writeFile path [],
                some (path, []), fun settings reports => ?_⟩
              exact deliver_of_unencodable proper located encoded _
          | some payload =>
              refine ⟨.exit 0, ⟨some ("Output written to " ++ name), none⟩,
                files.writeFile path payload, some (path, payload), fun settings reports => ?_⟩
              rw [transcriptOf_out]
              exact Writes.deliver_eq ⟨proper, located, encoded⟩ _

/-- The reports belong to the image that was loaded; without one there are none. -/
structure Reports.BelongTo (reports : Reports) (loaded : Except AssemblyFault Image) : Prop where
  of_image : ∀ image, loaded = .ok image →
    ∃ listing, Listing.render image Catalog.standard = .ok listing ∧ reports = .on image listing
  of_fault : ∀ fault, loaded = .error fault → reports = .none

/-- How a run ends, what it writes and the reports it selects from do not depend on its flags. -/
theorem exists_run_eq (files : FileSystem) (infiles : List String) (outfile : String) :
    ∃ outcome reports last left written?,
      reports.BelongTo (Assembler.standard.load files.reader infiles).1 ∧
        ∀ settings : Settings, settings.infiles = infiles → settings.outfile = outfile →
          run files settings =
            ⟨outcome, transcriptOf settings reports last, left, written?⟩ := by
  cases loaded : (Assembler.standard.load files.reader infiles).1 with
  | error fault =>
      have nothing : Reports.none.BelongTo (.error fault) := ⟨by simp, by simp⟩
      cases reported : fault.report? with
      | none =>
          refine ⟨.escaped (.assembly fault), .none, ⟨none, none⟩, files, none, nothing, ?_⟩
          rintro settings rfl rfl
          simp [run, attempt, loaded, reported, transcriptOf_none]
      | some report =>
          refine ⟨.exit 1, .none, ⟨none, some ("Assembler error: " ++ report.render)⟩, files,
            none, nothing, ?_⟩
          rintro settings rfl rfl
          simp [run, attempt, loaded, reported, transcriptOf_none]
  | ok image =>
      rcases exists_render_of_loaded loaded with ⟨listing, listed⟩
      rcases exists_deliver_eq files
          (if outfile = "" then defaultOutput (infiles.headD "") else outfile) image with
        ⟨outcome, last, left, written?, delivered⟩
      refine ⟨outcome, .on image listing, last, left, written?, ⟨?_, by simp⟩, ?_⟩
      · rintro _ ⟨⟩
        exact ⟨listing, listed, rfl⟩
      · rintro settings rfl rfl
        simp only [run, attempt_of_loaded loaded listed]
        exact delivered settings _

/-! ## Two runs -/

/-- Two runs end alike, write the same and print from the same reports. -/
structure DifferInReports (files : FileSystem) (left right : Settings) : Prop where
  outcome_eq : (run files left).outcome = (run files right).outcome
  files_eq : (run files left).files = (run files right).files
  written_eq : (run files left).written? = (run files right).written?
  printed : ∃ reports last,
    reports.BelongTo (Assembler.standard.load files.reader left.infiles).1 ∧
      (run files left).transcript = transcriptOf left reports last ∧
        (run files right).transcript = transcriptOf right reports last

/-- The reporting flags change nothing but which reports are printed. -/
theorem differInReports_of_same_files
    {left right : Settings} (infiles_eq : left.infiles = right.infiles)
    (outfile_eq : left.outfile = right.outfile) (files : FileSystem) :
    DifferInReports files left right := by
  rcases exists_run_eq files left.infiles left.outfile with
    ⟨outcome, reports, last, remaining, written?, belong, under⟩
  -- Both runs are instances of the one equation.
  have leftRun := under left rfl rfl
  have rightRun := under right infiles_eq.symm outfile_eq.symm
  constructor
  case outcome_eq => rw [leftRun, rightRun]
  case files_eq => rw [leftRun, rightRun]
  case written_eq => rw [leftRun, rightRun]
  case printed => exact ⟨reports, last, belong, by rw [leftRun], by rw [rightRun]⟩

/-- The opposite of what `stockedSettings` asks for. -/
def oppositeSettings : Settings :=
  ⟨["lib.d/..prog.v1.asm"], "", false, true, true, false⟩

theorem differInReports_stockedFiles :
    stockedSettings.infiles = oppositeSettings.infiles ∧
      stockedSettings.outfile = oppositeSettings.outfile ∧
        DifferInReports stockedFiles stockedSettings oppositeSettings := by
  have infiles_eq : stockedSettings.infiles = oppositeSettings.infiles := rfl
  have outfile_eq : stockedSettings.outfile = oppositeSettings.outfile := rfl
  exact ⟨infiles_eq, outfile_eq,
    differInReports_of_same_files infiles_eq outfile_eq stockedFiles⟩

end Command

end WordMachine
