import WordMachine.Proofs.Program.Load
import WordMachine.Proofs.Program.Steps

/-!
# Images under any sequence of actions

A bench can be worked on step by step: lines are taken in, labels bound, words
emitted and whole programs assembled, in any order and with any arguments, and a
step that fails keeps what it did before.  Whatever the order, words are written
directly behind those in use and nowhere else, and never beyond the capacity.
`Keeps` says this of one step, whether it succeeds or fails.  The property is
stepwise, so every step of the second pass has it, and from there the walk, every
action and every sequence of actions.
-/

namespace WordMachine

namespace Workbench

/-! ## Growing code -/

/-- The second bench has all the code of the first, and perhaps more behind it. -/
structure Extends (before after : Workbench) : Prop where
  capacity_eq : after.image.capacity = before.image.capacity
  length_le : before.image.length ≤ after.image.length
  code_eq : ∀ position : Nat, (position : Int) < before.image.length →
    after.image.code[position]? = before.image.code[position]?

theorem Extends.refl (bench : Workbench) : Extends bench bench :=
  ⟨rfl, Int.le_refl _, fun _ _ => rfl⟩

theorem Extends.trans
    {first second third : Workbench}
    (left : Extends first second) (right : Extends second third) :
    Extends first third where
  capacity_eq := right.capacity_eq.trans left.capacity_eq
  length_le := Int.le_trans left.length_le right.length_le
  code_eq := by
    intro position below
    have belowSecond := Int.lt_of_lt_of_le below left.length_le
    exact (right.code_eq position belowSecond).trans (left.code_eq position below)

/-- The second bench extends the first, and its image is in good order. -/
structure Grows (before after : Workbench) : Prop where
  sound : after.image.Sound
  extends_code : Extends before after

theorem Grows.refl {bench : Workbench} (sound : bench.image.Sound) : Grows bench bench :=
  ⟨sound, Extends.refl bench⟩

theorem Grows.trans
    {first second third : Workbench}
    (left : Grows first second) (right : Grows second third) :
    Grows first third :=
  ⟨right.sound, left.extends_code.trans right.extends_code⟩

/-- Capacity, length and code decide whether a bench is in good order. -/
theorem Grows.of_sameCode
    {before after : Workbench} (sound : before.image.Sound)
    (sameCapacity : after.image.capacity = before.image.capacity)
    (sameLength : after.image.length = before.image.length)
    (sameCode : after.image.code = before.image.code) :
    Grows before after where
  sound := by
    rcases sound with ⟨start, inside, size, fits, blank⟩
    rw [← sameLength] at start inside blank
    rw [← sameCapacity] at inside size
    rw [← sameCode] at size fits blank
    exact ⟨start, inside, size, fits, blank⟩
  extends_code := by
    refine ⟨sameCapacity, Int.le_of_eq sameLength.symm, ?_⟩
    intro position _
    rw [sameCode]

theorem Grows.push
    {bench : Workbench} (sound : bench.image.Sound)
    (room : bench.image.length < bench.image.capacity) (number : Int) :
    Grows bench (bench.push number) where
  sound := imageSound_push sound room number
  extends_code := by
    refine ⟨rfl, Int.le_add_one (Int.le_refl _), ?_⟩
    intro position below
    exact code_push_of_lt number below

/-- The first pass only reads lines: it writes no word. -/
theorem Grows.tokenize {bench : Workbench} (sound : bench.image.Sound) (line : List Char) :
    Grows bench (bench.tokenize line) := by
  have image_eq := image_foldl_absorb bench (Token.raw line)
  apply Grows.of_sameCode sound
  · rw [Workbench.tokenize, image_eq]
  · rw [Workbench.tokenize, image_eq]
  · rw [Workbench.tokenize, image_eq]

end Workbench

namespace Assembly

open Workbench

variable {α β : Type}

/-! ## Steps -/

/-- The bench that a step leaves behind, whether it succeeds or fails. -/
def benchAfter (step : Assembly α) (before : Workbench) : Workbench :=
  match step before with
  | .ok _ after => after
  | .error _ after => after

/-- A step that only lets the code grow, whether it succeeds or fails. -/
def Keeps (step : Assembly α) : Prop :=
  ∀ before : Workbench, before.image.Sound → Grows before (benchAfter step before)

/-- The one step that writes: it writes behind the code in use, or it fails and writes nothing. -/
theorem keeps_emit (word : Int) : Keeps (emit word) := by
  intro before sound
  by_cases room : before.image.length < before.image.capacity
  · have emitted : emit word before = .ok () (before.push word) :=
      (emit_eq_ok_iff sound).mpr ⟨room, rfl⟩
    simp only [benchAfter, emitted]
    exact Grows.push sound room word
  · simp only [benchAfter, emit, if_pos (Int.not_lt.mp room)]
    exact Grows.refl sound

theorem Keeps.bind
    {first : Assembly α} {next : α → Assembly β} (firstKeeps : Keeps first)
    (nextKeeps : ∀ value, Keeps (next value)) :
    Keeps (first >>= next) := by
  intro before sound
  have grown := firstKeeps before sound
  simp only [benchAfter] at grown
  simp only [benchAfter, Bind.bind, EStateM.bind]
  cases run : first before with
  | ok value between =>
      rw [run] at grown
      exact grown.trans (nextKeeps value between grown.sound)
  | error fault between =>
      rw [run] at grown
      exact grown

theorem keeps_checkNumbers (numbers : List Int) : Keeps (checkNumbers numbers) := by
  intro before sound
  simp only [benchAfter, checkNumbers]
  cases Numeral.checkAll numbers with
  | error fault => exact Grows.refl sound
  | ok _ => exact Grows.refl sound

theorem keeps_report (message : String) (address? : Option Int) :
    Keeps (report message address?) := by
  intro before sound
  simp only [benchAfter, report]
  cases warned : before.image.warn message address? with
  | error fault => exact Grows.refl sound
  | ok image =>
      obtain ⟨source, rfl⟩ := Image.eq_addWarning_of_warn warned
      exact Grows.of_sameCode sound rfl rfl rfl

theorem keeps_warn (concern : Concern) (address? : Option Int) :
    Keeps (warn concern address?) :=
  (keeps_checkNumbers _).bind fun _ => keeps_report _ address?

theorem isStepwise_keeps : IsStepwise @Keeps where
  of_pure _ _ sound := Grows.refl sound
  of_bind := Keeps.bind
  of_warn := keeps_warn
  of_fetch := by
    intro address before sound
    simp only [benchAfter, fetch]
    cases before.tokens.get? address with
    | none => exact Grows.refl sound
    | some token => exact Grows.refl sound
  of_labelAddress _ _ sound := Grows.refl sound
  of_isLabel _ _ sound := Grows.refl sound
  of_endAddress _ sound := Grows.refl sound
  of_readNumeral := by
    intro token before sound
    simp only [benchAfter, readNumeral]
    cases Numeral.read token with
    | error fault => exact Grows.refl sound
    | ok reading => exact Grows.refl sound
  of_instructionWord := by
    intro index kinds before sound
    simp only [benchAfter, instructionWord]
    cases Instruction.encode index kinds with
    | error fault => exact Grows.refl sound
    | ok word => exact Grows.refl sound
  of_emit := keeps_emit

/--
The walk keeps the order of the bench round by round.  The induction follows the
walk itself, so it needs nothing of the arities: the addresses of the walk may
stand still or move back.
-/
theorem keeps_assembleFrom (catalog : Catalog) (stop address : Int) :
    Keeps (assembleFrom catalog stop address) := by
  intro before sound
  induction address, before using assembleFrom.induct catalog stop with
  | case1 address before inside next between step tailHolds =>
      have grown := isStepwise_keeps.assembleItem catalog address before sound
      simp only [benchAfter, step] at grown
      have rest := tailHolds grown.sound
      simp only [benchAfter] at rest
      simp only [benchAfter, assembleFrom_of_lt inside, bind, EStateM.bind, step]
      exact grown.trans rest
  | case2 address before inside fault between step =>
      have grown := isStepwise_keeps.assembleItem catalog address before sound
      simp only [benchAfter, step] at grown
      simp only [benchAfter, assembleFrom_of_lt inside, bind, EStateM.bind, step]
      exact grown
  | case3 address before atEnd =>
      simp only [benchAfter, assembleFrom_of_le (Int.not_lt.mp atEnd)]
      exact Grows.refl sound

theorem keeps_checkEntry : Keeps checkEntry := by
  intro before sound
  by_cases past : before.image.entry ≠ codeStart ∧ before.image.length ≤ before.image.entry
  · simp only [benchAfter, checkEntry, if_pos past]
    exact keeps_warn _ none before sound
  · simp only [benchAfter, checkEntry, if_neg past]
    exact Grows.refl sound

theorem keeps_assemble (catalog : Catalog) : Keeps (assemble catalog) := by
  intro before sound
  have run :=
    (keeps_assembleFrom catalog before.nextAddress before.tokens.base).bind
      fun _ => keeps_checkEntry
  exact run before sound

end Assembly

namespace Workbench

open Assembly

/-! ## Actions -/

/-- What can be done with a bench, with the arguments it is done with. -/
inductive Action where
  | tokenize (line : List Char)
  | register (spelling : String) (address : Int)
  | record (entry : LineRecord)
  | assembleOperand (token : String) (address : Int)
  | emit (word : Int)
  | locate (address : Int)
  | warn (message : String) (address? : Option Int)
  | resolveLabel (name : String) (address : Int)
  | parseLiteral (token : String) (address : Int)
  | assembleInstruction (index : Int) (operation : Operation) (address : Int)
  | assemble

/-- The bench after an action; an action that fails keeps what it did before. -/
def Action.after (catalog : Catalog) (bench : Workbench) : Action → Workbench
  | .tokenize line => bench.tokenize line
  | .register spelling address => bench.register spelling address
  | .record entry => bench.record entry
  | .assembleOperand token address => benchAfter (Assembly.assembleOperand token address) bench
  | .emit word => benchAfter (Assembly.emit word) bench
  -- Asking for a source line is a question to the image, which gives no new bench.
  | .locate _ => bench
  | .warn message address? => benchAfter (Assembly.report message address?) bench
  | .resolveLabel name address => benchAfter (Assembly.resolveLabel name address) bench
  | .parseLiteral token address => benchAfter (Assembly.parseLiteral token address) bench
  | .assembleInstruction index operation address =>
      benchAfter (Assembly.assembleInstruction index operation address) bench
  | .assemble => benchAfter (Assembly.assemble catalog) bench

/-- The bench after actions that are taken one after the other. -/
def afterAll (catalog : Catalog) (bench : Workbench) (actions : List Action) : Workbench :=
  actions.foldl (Action.after catalog) bench

/-- Whatever the action is, the code only grows. -/
theorem Grows.action
    {bench : Workbench} (sound : bench.image.Sound) (catalog : Catalog) (action : Action) :
    Grows bench (action.after catalog bench) := by
  cases action with
  | tokenize line => exact Grows.tokenize sound line
  | register spelling address => exact Grows.of_sameCode sound rfl rfl rfl
  | record entry => exact Grows.of_sameCode sound rfl rfl rfl
  | assembleOperand token address => exact isStepwise_keeps.assembleOperand token address bench sound
  | emit word => exact keeps_emit word bench sound
  | locate address => exact Grows.refl sound
  | warn message address? => exact keeps_report message address? bench sound
  | resolveLabel name address => exact isStepwise_keeps.resolveLabel name address bench sound
  | parseLiteral token address => exact isStepwise_keeps.parseLiteral token address bench sound
  | assembleInstruction index operation address =>
      exact isStepwise_keeps.assembleInstruction index operation address bench sound
  | assemble => exact keeps_assemble catalog bench sound

theorem Grows.actions
    {bench : Workbench} (sound : bench.image.Sound) (catalog : Catalog) (actions : List Action) :
    Grows bench (afterAll catalog bench actions) := by
  induction actions generalizing bench with
  | nil => exact Grows.refl sound
  | cons action rest tailHolds =>
      have first := Grows.action sound catalog action
      exact first.trans (tailHolds first.sound)

/--
After any actions on a blank bench the image has its capacity and is in good
order, and a further action leaves the words in use as they are.
-/
theorem sound_after_actions
    {catalog : Catalog} {capacity : Int} {assembler : Assembler}
    (created : Assembler.create catalog capacity = .ok assembler) (actions : List Action) :
    (afterAll catalog (Workbench.blank capacity) actions).image.Sound ∧
      (afterAll catalog (Workbench.blank capacity) actions).image.capacity = capacity ∧
        ∀ action : Action,
          Extends (afterAll catalog (Workbench.blank capacity) actions)
            (action.after catalog (afterAll catalog (Workbench.blank capacity) actions)) := by
  have large := (Program.create_eq_ok_iff.mp created).1
  have blank : (Workbench.blank capacity).image.Sound := Program.sound_blank large
  have grown := Grows.actions blank catalog actions
  refine ⟨grown.sound, grown.extends_code.capacity_eq, ?_⟩
  intro action
  exact (Grows.action grown.sound catalog action).extends_code

/-- An instruction that is cut off at the capacity, and attempts to go on behind it. -/
def cutOffActions : List Action :=
  [ .tokenize "add 1 $x 2 y".toList, .assemble, .emit 7,
    .assembleInstruction (-1) ⟨"back", -2⟩ 40, .assemble ]

theorem sound_after_cutOffActions :
    (∃ assembler, Assembler.create Catalog.standard 11 = .ok assembler) ∧
      (afterAll Catalog.standard (Workbench.blank 11) cutOffActions).image.length = 11 ∧
        (afterAll Catalog.standard (Workbench.blank 11) cutOffActions).image.Sound ∧
          Extends (afterAll Catalog.standard (Workbench.blank 11) cutOffActions)
            (Action.assemble.after Catalog.standard
              (afterAll Catalog.standard (Workbench.blank 11) cutOffActions)) := by
  have created : Assembler.create Catalog.standard 11 = .ok ⟨Catalog.standard, 11, none⟩ := rfl
  have kept := sound_after_actions created cutOffActions
  have full : (afterAll Catalog.standard (Workbench.blank 11) cutOffActions).image.length = 11 := by
    decide +kernel
  exact ⟨⟨_, created⟩, full, kept.1, kept.2.2 .assemble⟩

end Workbench

end WordMachine
