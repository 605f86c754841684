import WordMachine.Proofs.Program.Load
import WordMachine.Proofs.Program.Steps

/-!
# What the layout of a program does not decide

Lines, blanks, comments and the division into files reach the second pass as
places only: the line table is asked for the place of a warning or of a fault,
and for nothing else.  To see this, places are forgotten.  As long as the line
records can be counted, every step of the second pass commutes with forgetting
them (`IgnoresPlaces`), so two benches that agree without their places are still
alike when a run on each of them ends.  After the first pass such benches come
from all sources with the same raw tokens.
-/

namespace WordMachine

/-! ## Forgetting places -/

/-- A diagnostic with its message only. -/
def Diagnostic.withoutPlace (diagnostic : Diagnostic) : Diagnostic :=
  ⟨diagnostic.message, .unknown⟩

/-- What a fault says apart from the file or line that it names. -/
def AssemblyFault.withoutPlace : AssemblyFault → AssemblyFault
  | .unreadableSource _ fault => .unreadableSource "" fault
  | .capacityExceeded capacity _ => .capacityExceeded capacity .unknown
  | .nulInFileName => .nulInFileName
  | .longNumeral fault => .longNumeral fault
  | .range fault => .range fault
  | .instruction fault => .instruction fault
  | .missingToken => .missingToken
  | .missingWord => .missingWord

/-- An image without line records and without the places of its warnings. -/
def Image.withoutPlaces (image : Image) : Image :=
  { image with
    lines := .empty
    warnings := image.warnings.map Diagnostic.withoutPlace }

/-- A bench whose image has no places. -/
def Workbench.withoutPlaces (bench : Workbench) : Workbench :=
  { bench with image := bench.image.withoutPlaces }

theorem Image.withoutPlaces_addWarning (image : Image) (warning : Diagnostic) :
    (image.addWarning warning).withoutPlaces =
      image.withoutPlaces.addWarning warning.withoutPlace := by
  simp only [addWarning, withoutPlaces, Array.map_push]

/-- Without records, every place is unknown. -/
theorem Image.locate_withoutPlaces (image : Image) (address : Int) :
    image.withoutPlaces.locate address = .ok .unknown :=
  rfl

namespace Assembly

open Program Workbench

variable {α β : Type}

/-- The end of a run without the places in its bench and in its fault. -/
def forgetPlaces :
    EStateM.Result AssemblyFault Workbench α → EStateM.Result AssemblyFault Workbench α
  | .ok value bench => .ok value bench.withoutPlaces
  | .error fault bench => .error fault.withoutPlace bench.withoutPlaces

/--
A step that does the same whether places are known or not, on benches whose line
records can be counted, and that leaves such a bench.
-/
structure IgnoresPlaces (step : Assembly α) : Prop where
  same : ∀ {bench : Workbench}, bench.image.HasCountableLines →
    step bench.withoutPlaces = forgetPlaces (step bench)
  countable : ∀ {before after : Workbench} {value : α}, before.image.HasCountableLines →
    step before = .ok value after → after.image.HasCountableLines

/-! ## Steps -/

/-- A step that only looks at the bench has to ignore its places. -/
theorem IgnoresPlaces.of_unchanged
    {step : Assembly α}
    (same : ∀ bench : Workbench, step bench.withoutPlaces = forgetPlaces (step bench))
    (unchanged : ∀ {before after : Workbench} {value : α},
      step before = .ok value after → after = before) :
    IgnoresPlaces step where
  same _ := same _
  countable countable run := unchanged run ▸ countable

theorem ignoresPlaces_pure (value : α) : IgnoresPlaces (pure value) :=
  .of_unchanged (fun _ => rfl) fun run => (pure_eq_ok_iff.mp run).2.symm

theorem ignoresPlaces_checkNumbers (numbers : List Int) :
    IgnoresPlaces (checkNumbers numbers) := by
  refine .of_unchanged ?_ bench_checkNumbers
  intro bench
  simp only [checkNumbers]
  cases Numeral.checkAll numbers with
  | error fault => rfl
  | ok _ => rfl

theorem report_none_withoutPlaces (message : String) (bench : Workbench) :
    report message none bench.withoutPlaces = forgetPlaces (report message none bench) := by
  simp only [report, Image.warn, forgetPlaces, withoutPlaces, Image.withoutPlaces_addWarning,
    Diagnostic.withoutPlace]

theorem ignoresPlaces_report (message : String) (address? : Option Int) :
    IgnoresPlaces (report message address?) where
  same := by
    intro bench countable
    cases address? with
    | none => exact report_none_withoutPlaces message bench
    | some address =>
        rw [report_eq countable]
        simp only [report, Image.warn, withoutPlaces, Image.locate_withoutPlaces, Except.map,
          forgetPlaces, Image.withoutPlaces_addWarning, Diagnostic.withoutPlace]
  countable := by
    intro before after value countable run
    obtain ⟨source, rfl⟩ := exists_source_of_report run
    exact countable

/-- The place of a word that does not fit is the one thing that the line table decides here. -/
theorem roomFault_withoutPlaces
    {image : Image} (countable : image.HasCountableLines) :
    roomFault image.withoutPlaces = (roomFault image).withoutPlace := by
  have sameCapacity : image.withoutPlaces.capacity = image.capacity := rfl
  rw [roomFault, roomFault, Image.locate_withoutPlaces, Image.locate_eq_placeAt countable,
    sameCapacity]
  cases Numeral.check image.capacity with
  | error fault => rfl
  | ok _ => rfl

theorem ignoresPlaces_emit (word : Int) : IgnoresPlaces (emit word) where
  same := by
    intro bench countable
    have sameTest :
        bench.withoutPlaces.image.capacity ≤ bench.withoutPlaces.image.length ↔
          bench.image.capacity ≤ bench.image.length :=
      Iff.rfl
    rw [emit, emit]
    by_cases full : bench.image.capacity ≤ bench.image.length
    · rw [if_pos (sameTest.mpr full), if_pos full]
      simp only [forgetPlaces, withoutPlaces, roomFault_withoutPlaces countable]
    · rw [if_neg (mt sameTest.mp full), if_neg full]
      simp only [withoutPlaces, Image.withoutPlaces]
      cases SignedIndex.resolve? bench.image.code.size bench.image.length with
      | none => rfl
      | some position => rfl
  countable := by
    intro before after value countable run
    simp only [emit] at run
    split at run
    · cases run
    · split at run
      · cases run
      · cases run
        exact countable

theorem IgnoresPlaces.bind
    {first : Assembly α} {next : α → Assembly β} (firstIgnores : IgnoresPlaces first)
    (nextIgnores : ∀ value, IgnoresPlaces (next value)) :
    IgnoresPlaces (first >>= next) where
  same := by
    intro bench countable
    simp only [Bind.bind, EStateM.bind, firstIgnores.same countable]
    cases run : first bench with
    | ok value between =>
        exact (nextIgnores value).same (firstIgnores.countable countable run)
    | error fault between => rfl
  countable := by
    intro before after value countable run
    rcases bind_eq_ok_iff.mp run with ⟨_, between, firstRun, nextRun⟩
    exact (nextIgnores _).countable (firstIgnores.countable countable firstRun) nextRun

theorem ignoresPlaces_warn (concern : Concern) (address? : Option Int) :
    IgnoresPlaces (warn concern address?) :=
  (ignoresPlaces_checkNumbers _).bind fun _ => ignoresPlaces_report _ address?

theorem isStepwise_ignoresPlaces : IsStepwise @IgnoresPlaces where
  of_pure := ignoresPlaces_pure
  of_bind := IgnoresPlaces.bind
  of_warn := ignoresPlaces_warn
  of_fetch := by
    intro address
    refine .of_unchanged ?_ bench_fetch
    intro bench
    simp only [fetch, withoutPlaces]
    cases bench.tokens.get? address with
    | none => rfl
    | some token => rfl
  of_labelAddress _ := .of_unchanged (fun _ => rfl) fun run => by cases run; rfl
  of_isLabel _ := .of_unchanged (fun _ => rfl) fun run => by cases run; rfl
  of_endAddress := .of_unchanged (fun _ => rfl) fun run => by cases run; rfl
  of_readNumeral := by
    intro token
    refine .of_unchanged ?_ bench_readNumeral
    intro bench
    simp only [readNumeral]
    cases Numeral.read token with
    | error fault => rfl
    | ok reading => rfl
  of_instructionWord := by
    intro index kinds
    refine .of_unchanged ?_ bench_instructionWord
    intro bench
    simp only [instructionWord]
    cases Instruction.encode index kinds with
    | error fault => rfl
    | ok word => rfl
  of_emit := ignoresPlaces_emit

/-! ## Runs -/

/--
The walk does the same without places.  The induction follows the walk on the
bench with its places, on which each round leaves less room; the step lemma
carries every round over to the bench without them.
-/
theorem assembleFrom_withoutPlaces
    {catalog : Catalog} {stop address : Int} {bench : Workbench}
    (countable : bench.image.HasCountableLines) :
    assembleFrom catalog stop address bench.withoutPlaces =
      forgetPlaces (assembleFrom catalog stop address bench) := by
  induction address, bench using assembleFrom.induct catalog stop with
  | case1 address bench inside next between step tailHolds =>
      have item := isStepwise_ignoresPlaces.assembleItem catalog address
      rw [assembleFrom_of_lt inside, assembleFrom_of_lt inside]
      simp only [bind, EStateM.bind, item.same countable, step]
      exact tailHolds (item.countable countable step)
  | case2 address bench inside fault between step =>
      have item := isStepwise_ignoresPlaces.assembleItem catalog address
      rw [assembleFrom_of_lt inside, assembleFrom_of_lt inside]
      simp only [bind, EStateM.bind, item.same countable, step]
      rfl
  | case3 address bench atEnd =>
      rw [assembleFrom_of_le (by omega), assembleFrom_of_le (by omega)]
      rfl

/-- A warning about no token looks at no record. -/
theorem warn_none_withoutPlaces (concern : Concern) (bench : Workbench) :
    warn concern none bench.withoutPlaces = forgetPlaces (warn concern none bench) := by
  simp only [warn, bind, EStateM.bind, checkNumbers]
  cases Numeral.checkAll concern.numbers with
  | error fault => rfl
  | ok _ => exact report_none_withoutPlaces _ bench

theorem checkEntry_withoutPlaces (bench : Workbench) :
    checkEntry bench.withoutPlaces = forgetPlaces (checkEntry bench) := by
  have sameTest :
      (bench.withoutPlaces.image.entry ≠ codeStart ∧
          bench.withoutPlaces.image.length ≤ bench.withoutPlaces.image.entry) ↔
        bench.image.entry ≠ codeStart ∧ bench.image.length ≤ bench.image.entry :=
    Iff.rfl
  rw [checkEntry, checkEntry]
  by_cases past : bench.image.entry ≠ codeStart ∧ bench.image.length ≤ bench.image.entry
  · rw [if_pos (sameTest.mpr past), if_pos past]
    exact warn_none_withoutPlaces _ bench
  · rw [if_neg (mt sameTest.mp past), if_neg past]
    rfl

theorem assemble_withoutPlaces
    {bench : Workbench} (countable : bench.image.HasCountableLines) (catalog : Catalog) :
    assemble catalog bench.withoutPlaces = forgetPlaces (assemble catalog bench) := by
  have walk :
      assembleFrom catalog bench.withoutPlaces.nextAddress bench.withoutPlaces.tokens.base
          bench.withoutPlaces =
        forgetPlaces (assembleFrom catalog bench.nextAddress bench.tokens.base bench) :=
    assembleFrom_withoutPlaces countable
  simp only [assemble, bind, EStateM.bind, walk]
  cases assembleFrom catalog bench.nextAddress bench.tokens.base bench with
  | ok _ between => exact checkEntry_withoutPlaces between
  | error fault between => rfl

/-- Benches that are alike without their places are alike when they have been assembled. -/
theorem assemble_congr
    {left right : Workbench} (leftCountable : left.image.HasCountableLines)
    (rightCountable : right.image.HasCountableLines)
    (alike : left.withoutPlaces = right.withoutPlaces) (catalog : Catalog) :
    forgetPlaces (assemble catalog left) = forgetPlaces (assemble catalog right) := by
  rw [← assemble_withoutPlaces leftCountable, ← assemble_withoutPlaces rightCountable, alike]

end Assembly

namespace Program

open Workbench

/-! ## Loads from sources with the same tokens -/

/-- After the first pass, sources with the same raw tokens differ in places only. -/
theorem surveyed_withoutPlaces_congr
    {left right : SourceReader} {leftNames rightNames : List String}
    (sameTokens : sourceTokens left leftNames = sourceTokens right rightNames)
    (capacity : Int) :
    (surveyed capacity left leftNames).withoutPlaces =
      (surveyed capacity right rightNames).withoutPlaces := by
  rcases surveyed_eq capacity left leftNames with ⟨leftLines, leftBench⟩
  rcases surveyed_eq capacity right rightNames with ⟨rightLines, rightBench⟩
  rw [leftBench, rightBench, sameTokens]
  rfl

/-- Images that show the same program, whatever lines it was read from. -/
structure SameProgramImages (left right : Image) : Prop where
  code_eq : left.code = right.code
  length_eq : left.length = right.length
  capacity_eq : left.capacity = right.capacity
  entry_eq : left.entry = right.entry
  /-- The tables bind the same names to the same addresses in the same order. -/
  labels_eq : left.labels = right.labels
  messages_eq : left.warnings.map Diagnostic.message = right.warnings.map Diagnostic.message

/-- Faults of the same kind that say the same, whatever place they name. -/
structure SameFaults (left right : AssemblyFault) : Prop where
  withoutPlace_eq : left.withoutPlace = right.withoutPlace
  report_eq : left.report?.map LocatedMessage.message = right.report?.map LocatedMessage.message
  message_eq : left.message? = right.message?

/-- Both outcomes are images of the same program, or both are the same fault but for its place. -/
inductive SameOutcomes : Except AssemblyFault Image → Except AssemblyFault Image → Prop where
  | images {left right : Image} (same : SameProgramImages left right) :
      SameOutcomes (.ok left) (.ok right)
  | faults {left right : AssemblyFault} (same : SameFaults left right) :
      SameOutcomes (.error left) (.error right)

theorem sameProgramImages_of_withoutPlaces
    {left right : Image} (alike : left.withoutPlaces = right.withoutPlaces) :
    SameProgramImages left right := by
  have messages (image : Image) :
      image.withoutPlaces.warnings.map Diagnostic.message =
        image.warnings.map Diagnostic.message := by
    simp [Image.withoutPlaces, Diagnostic.withoutPlace, Function.comp_def]
  have sameMessages :
      left.warnings.map Diagnostic.message = right.warnings.map Diagnostic.message := by
    rw [← messages left, alike, messages]
  simp only [Image.withoutPlaces, Image.mk.injEq] at alike
  rcases alike with ⟨entry, length, capacity, code, labels, _, _⟩
  exact ⟨code, length, capacity, entry, labels, sameMessages⟩

theorem report?_withoutPlace (fault : AssemblyFault) :
    fault.withoutPlace.report?.map LocatedMessage.message =
      fault.report?.map LocatedMessage.message := by
  cases fault <;> rfl

theorem message?_withoutPlace (fault : AssemblyFault) :
    fault.withoutPlace.message? = fault.message? := by
  cases fault <;> rfl

theorem sameFaults_of_withoutPlace
    {left right : AssemblyFault} (alike : left.withoutPlace = right.withoutPlace) :
    SameFaults left right where
  withoutPlace_eq := alike
  report_eq := by rw [← report?_withoutPlace left, alike, report?_withoutPlace]
  message_eq := by rw [← message?_withoutPlace left, alike, message?_withoutPlace]

/-- Once all sources have been read, a load is the second pass over what the first one left. -/
theorem load_eq_assemble
    {catalog : Catalog} {capacity : Int} {reader : SourceReader} {filenames : List String}
    (sources : ∀ filename ∈ filenames, ∃ text, readText reader filename = .ok text) :
    ((Assembler.mk catalog capacity none).load reader filenames).1 =
      match Assembly.assemble catalog (surveyed capacity reader filenames) with
      | .ok _ bench => .ok bench.image
      | .error fault _ => .error fault := by
  have read : Assembly.readSources reader filenames (Workbench.initial capacity) =
      .ok () (surveyed capacity reader filenames) :=
    Assembly.readSources_eq_ok_iff.mpr ⟨sources, rfl⟩
  have run :
      Assembly.run catalog reader filenames (Workbench.initial capacity) =
        Assembly.assemble catalog (surveyed capacity reader filenames) := by
    simp only [Assembly.run, bind, EStateM.bind, read]
  simp only [Assembler.load, run]
  cases Assembly.assemble catalog (surveyed capacity reader filenames) with
  | ok _ bench => rfl
  | error fault bench => rfl

/--
The raw tokens of the sources decide what a load gives: two lists of readable
files with the same raw tokens load to images of the same program, or both loads
fail alike, whatever the catalog is.
-/
theorem sameOutcomes_of_sameTokens
    {catalog : Catalog} {capacity : Int} {assembler : Assembler}
    (created : Assembler.create catalog capacity = .ok assembler)
    {left right : SourceReader} {leftNames rightNames : List String}
    (leftSources : ∀ filename ∈ leftNames, ∃ text, readText left filename = .ok text)
    (rightSources : ∀ filename ∈ rightNames, ∃ text, readText right filename = .ok text)
    (sameTokens : sourceTokens left leftNames = sourceTokens right rightNames) :
    SameOutcomes (assembler.load left leftNames).1 (assembler.load right rightNames).1 := by
  rcases create_eq_ok_iff.mp created with ⟨large, small, rfl⟩
  have alike :=
    Assembly.assemble_congr (sound_surveyed large small left leftNames).countable
      (sound_surveyed large small right rightNames).countable
      (surveyed_withoutPlaces_congr sameTokens capacity) catalog
  rw [load_eq_assemble leftSources, load_eq_assemble rightSources]
  cases leftRun : Assembly.assemble catalog (surveyed capacity left leftNames) with
  | ok _ leftBench =>
      cases rightRun : Assembly.assemble catalog (surveyed capacity right rightNames) with
      | ok _ rightBench =>
          rw [leftRun, rightRun] at alike
          simp only [Assembly.forgetPlaces, EStateM.Result.ok.injEq, true_and] at alike
          exact .images (sameProgramImages_of_withoutPlaces (congrArg Workbench.image alike))
      | error fault rightBench =>
          rw [leftRun, rightRun] at alike
          cases alike
  | error leftFault leftBench =>
      cases rightRun : Assembly.assemble catalog (surveyed capacity right rightNames) with
      | ok _ rightBench =>
          rw [leftRun, rightRun] at alike
          cases alike
      | error rightFault rightBench =>
          rw [leftRun, rightRun] at alike
          simp only [Assembly.forgetPlaces, EStateM.Result.error.injEq] at alike
          exact .faults (sameFaults_of_withoutPlace alike.1)

/-- A program on one line, with a label, an undefined one and a missing operand. -/
def crampedProgram : SourceReader :=
  singleSource "a" "$go mov &u go entry push"

/-- The same program in two files, with comments, blank lines and other line ends. -/
def looseProgram : SourceReader :=
  .ofContents fun filename =>
    if filename = "a" then .ok (Text.Utf8.encode "~ first\n\n  $go mov ~ y\r\n\t&u")
    else if filename = "b" then .ok (Text.Utf8.encode "go\n\n  entry\rpush ~")
    else .error .noSuchFile

theorem sameOutcomes_looseProgram :
    (∀ filename ∈ ["a"], ∃ text, readText crampedProgram filename = .ok text) ∧
      (∀ filename ∈ ["a", "b"], ∃ text, readText looseProgram filename = .ok text) ∧
        sourceTokens crampedProgram ["a"] = sourceTokens looseProgram ["a", "b"] ∧
          ∃ assembler,
            Assembler.create Catalog.standard 14 = .ok assembler ∧
              SameOutcomes (assembler.load crampedProgram ["a"]).1
                (assembler.load looseProgram ["a", "b"]).1 := by
  have created : Assembler.create Catalog.standard 14 = .ok ⟨Catalog.standard, 14, none⟩ := rfl
  have readable (reader : SourceReader) (filename : String)
      (read : (readText reader filename).toOption.isSome = true) :
      ∃ text, readText reader filename = .ok text := by
    rcases Option.isSome_iff_exists.mp read with ⟨text, found⟩
    exact ⟨text, eq_ok_of_toOption found⟩
  have cramped : ∀ filename ∈ ["a"], ∃ text, readText crampedProgram filename = .ok text := by
    intro filename member
    apply readable
    revert filename
    decide +kernel
  have loose : ∀ filename ∈ ["a", "b"], ∃ text, readText looseProgram filename = .ok text := by
    intro filename member
    apply readable
    revert filename
    decide +kernel
  have sameTokens : sourceTokens crampedProgram ["a"] = sourceTokens looseProgram ["a", "b"] := by
    decide +kernel
  exact ⟨cramped, loose, sameTokens, _, created,
    sameOutcomes_of_sameTokens created cramped loose sameTokens⟩

end Program

end WordMachine
