import WordMachine.Proofs.Program.Load

/-!
# Loads one after the other

An assembler can be used for many loads.  During a load the steps of both passes
work on the one program that the assembler holds, and a step that fails leaves it
as it is at that point, with some sources read or an instruction half emitted.
Loading in place says this step by step, and it amounts to `Assembler.load`, which
names only the result.  So a load neither finds anything of the loads before it
nor leaves anything to those behind it, whether it succeeds or not.
-/

namespace WordMachine

/-! ## Working in place -/

namespace Assembler

/-- A procedure that works on the assembler itself. -/
abbrev Procedure := EStateM AssemblyFault Assembler

/-- The assembler with another program at hand. -/
def holding (assembler : Assembler) (bench : Workbench) : Assembler :=
  { assembler with bench? := some bench }

/-- The program at hand; an assembler without one starts a new one. -/
def held (assembler : Assembler) : Workbench :=
  assembler.bench?.getD (Workbench.initial assembler.capacity)

/-- The assembler keeps the program as a step has left it, also if the step has failed. -/
def keep {α : Type} (assembler : Assembler) :
    EStateM.Result AssemblyFault Workbench α → EStateM.Result AssemblyFault Assembler α
  | .ok value bench => .ok value (assembler.holding bench)
  | .error fault bench => .error fault (assembler.holding bench)

/-- Let a step work on the program at hand. -/
def onHeld {α : Type} (step : Assembly α) : Procedure α := fun assembler =>
  assembler.keep (step assembler.held)

/-- Start a new program, whatever is at hand. -/
def startAnew : Procedure Unit := fun assembler =>
  .ok () (assembler.holding (Workbench.initial assembler.capacity))

/-- Read source files into the program at hand, one after the other. -/
def readInPlace (reader : SourceReader) : List String → Procedure Unit
  | [] => pure ()
  | filename :: rest => do
      onHeld (Assembly.readSource reader filename)
      readInPlace reader rest

/-- Emit the program at hand. -/
def assembleInPlace : Procedure Unit := fun assembler =>
  onHeld (Assembly.assemble assembler.catalog) assembler

/-- Both passes, in place. -/
def runInPlace (reader : SourceReader) (filenames : List String) : Procedure Unit := do
  startAnew
  readInPlace reader filenames
  assembleInPlace

/-- Load in place, and put the program away in the end, however far the passes came. -/
def loadInPlace (assembler : Assembler) (reader : SourceReader) (filenames : List String) :
    Except AssemblyFault Image × Assembler :=
  match runInPlace reader filenames assembler with
  | .ok _ working => (.ok working.held.image, working.clear)
  | .error fault working => (.error fault, working.clear)

/-- Reading in place leaves what reading on a bench of its own leaves, also if it fails. -/
theorem readInPlace_holding
    (assembler : Assembler) (reader : SourceReader) (filenames : List String)
    (bench : Workbench) :
    readInPlace reader filenames (assembler.holding bench) =
      assembler.keep (Assembly.readSources reader filenames bench) := by
  induction filenames generalizing bench with
  | nil => rfl
  | cons filename rest tailHolds =>
      have first :
          onHeld (Assembly.readSource reader filename) (assembler.holding bench) =
            assembler.keep (Assembly.readSource reader filename bench) :=
        rfl
      simp only [readInPlace, Assembly.readSources, bind, EStateM.bind, first]
      cases Assembly.readSource reader filename bench with
      | error fault after => rfl
      | ok value after => exact tailHolds after

theorem runInPlace_eq
    (assembler : Assembler) (reader : SourceReader) (filenames : List String) :
    runInPlace reader filenames assembler =
      assembler.keep
        (Assembly.run assembler.catalog reader filenames
          (Workbench.initial assembler.capacity)) := by
  have read := readInPlace_holding assembler reader filenames
    (Workbench.initial assembler.capacity)
  simp only [runInPlace, startAnew, Assembly.run, bind, EStateM.bind, read]
  cases Assembly.readSources reader filenames (Workbench.initial assembler.capacity) with
  | error fault after => rfl
  | ok value after => rfl

/-- A load works in place. -/
theorem loadInPlace_eq_load
    (assembler : Assembler) (reader : SourceReader) (filenames : List String) :
    assembler.loadInPlace reader filenames = assembler.load reader filenames := by
  rw [loadInPlace, load, runInPlace_eq]
  cases Assembly.run assembler.catalog reader filenames
      (Workbench.initial assembler.capacity) with
  | error fault after => rfl
  | ok value after => rfl

/-! ## One load -/

theorem load_snd (assembler : Assembler) (reader : SourceReader) (filenames : List String) :
    (assembler.load reader filenames).2 = assembler.clear := by
  rw [load]
  split
  · rfl
  · rfl

/-- A load does not look at the program that the assembler holds. -/
theorem load_clear (assembler : Assembler) (reader : SourceReader) (filenames : List String) :
    assembler.clear.load reader filenames = assembler.load reader filenames :=
  rfl

end Assembler

namespace Program

/-! ## A sequence of loads -/

/-- What a load is asked for; the files can be others from one load to the next. -/
structure Request where
  reader : SourceReader
  filenames : List String

/-- A load that was made: the assembler as it was found, the outcome, and what was left. -/
structure Call where
  before : Assembler
  request : Request
  outcome : Except AssemblyFault Image
  after : Assembler

/-- Load one request after the other on one assembler. -/
def serve (assembler : Assembler) : List Request → List Call
  | [] => []
  | request :: rest =>
      let (outcome, after) := assembler.load request.reader request.filenames
      ⟨assembler, request, outcome, after⟩ :: serve after rest

/-- A call that starts from nothing and leaves nothing. -/
structure Call.HasNoMemory (fresh : Assembler) (call : Call) : Prop where
  /-- The call has worked on what the assembler holds. -/
  in_place :
    (call.outcome, call.after) =
      call.before.loadInPlace call.request.reader call.request.filenames
  idle : call.after.isIdle = true
  outcome_eq : call.outcome = (fresh.load call.request.reader call.request.filenames).1

/-- One load of an assembler with the settings of the fresh one. -/
theorem hasNoMemory_load
    {fresh assembler : Assembler} (same : assembler.clear = fresh) (request : Request) :
    Call.HasNoMemory fresh
      ⟨assembler, request, (assembler.load request.reader request.filenames).1,
        (assembler.load request.reader request.filenames).2⟩ where
  in_place := (Assembler.loadInPlace_eq_load assembler request.reader request.filenames).symm
  idle := by
    simp only [Assembler.load_snd]
    rfl
  outcome_eq := by
    rw [← same, Assembler.load_clear]

/-- All loads of an assembler with the settings of the fresh one, whatever it holds at first. -/
theorem hasNoMemory_of_mem_serve
    {fresh assembler : Assembler} (same : assembler.clear = fresh) (requests : List Request) :
    ∀ call ∈ serve assembler requests, call.HasNoMemory fresh := by
  induction requests generalizing assembler with
  | nil => simp [serve]
  | cons request rest tailHolds =>
      rw [serve, List.forall_mem_cons]
      -- What is held may change from one load to the next; catalog and capacity do not.
      refine ⟨hasNoMemory_load same request, tailHolds ?_⟩
      rw [Assembler.load_snd]
      exact same

theorem map_request_serve (assembler : Assembler) (requests : List Request) :
    (serve assembler requests).map Call.request = requests := by
  induction requests generalizing assembler with
  | nil => rfl
  | cons request rest tailHolds =>
      rw [serve, List.map_cons, tailHolds]

/--
Every load in a sequence on one assembler ends as it would on an assembler that
was just created, and leaves the assembler without a program.
-/
theorem serve_hasNoMemory
    {catalog : Catalog} {capacity : Int} {assembler : Assembler}
    (created : Assembler.create catalog capacity = .ok assembler) (requests : List Request) :
    (serve assembler requests).map Call.request = requests ∧
      ∀ fresh, Assembler.create catalog capacity = .ok fresh →
        ∀ call ∈ serve assembler requests, call.HasNoMemory fresh := by
  refine ⟨map_request_serve assembler requests, fun fresh again => ?_⟩
  rw [created] at again
  cases again
  apply hasNoMemory_of_mem_serve
  rw [(create_eq_ok_iff.mp created).2.2]
  rfl

/-- A catalog with an operation that takes more operands than an instruction word describes. -/
def wideCatalog : Catalog :=
  [⟨"add", 3⟩, ⟨"wide", 5⟩]

/-- Files of which one is not UTF-8. -/
def mixedFiles : SourceReader :=
  .ofContents fun filename =>
    if filename = "latin" then .ok [0xE9]
    else if filename = "label" then .ok (Text.Utf8.encode "$x 1 entry 2")
    else if filename = "large" then .ok (Text.Utf8.encode "add 1 2 x")
    else if filename = "wide" then .ok (Text.Utf8.encode "wide x")
    else .error .noSuchFile

/-- Requests that fail in the first pass, in the second pass and not at all. -/
def mixedRequests : List Request :=
  [["label", "latin"], ["label", "none"], ["large"], ["wide"], ["label"], ["large"]].map
    (Request.mk mixedFiles)

/-- The fault of a call, or the length of its image. -/
def Call.gist (call : Call) : AssemblyFault ⊕ Int :=
  match call.outcome with
  | .error fault => .inl fault
  | .ok image => .inr image.length

/-- The loads fail at different steps, and the same request fails in the same way once more. -/
theorem serve_mixedRequests :
    ∃ assembler,
      Assembler.create wideCatalog 12 = .ok assembler ∧
        (serve assembler mixedRequests).map Call.gist =
            [ .inl (.unreadableSource "latin" (.text ⟨0, [0xE9], .unexpectedEnd⟩)),
              .inl (.unreadableSource "none" (.file .noSuchFile)),
              .inl (.capacityExceeded 12 ⟨"large", 1⟩),
              .inl (.instruction (.tooManyOperands 5)),
              .inr 11,
              .inl (.capacityExceeded 12 ⟨"large", 1⟩) ] ∧
          (serve assembler mixedRequests).map Call.request = mixedRequests ∧
            ∀ fresh, Assembler.create wideCatalog 12 = .ok fresh →
              ∀ call ∈ serve assembler mixedRequests, call.HasNoMemory fresh := by
  have created : Assembler.create wideCatalog 12 = .ok ⟨wideCatalog, 12, none⟩ := rfl
  refine ⟨_, created, by decide +kernel, ?_⟩
  exact serve_hasNoMemory created mixedRequests

end Program

end WordMachine
