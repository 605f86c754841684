import WordMachine.AssemblyFault
import WordMachine.Catalog
import WordMachine.Workbench.Survey

/-!
# The second pass

The second pass walks over the retained tokens and emits words.  A token that
names an operation starts an instruction, which takes as many of the
following tokens as the operation has operands; any other token is a bare
word.  A step that fails keeps what it did up to that point.

Every item emits at least one word, so each round of the walk lowers
`Workbench.room`, the number of words that still fit.  This is why the walk
ends for every catalog, also for one with operations of negative arity, after
which the walk does not move forward.
-/

namespace WordMachine

/-- A step of the second pass: it works on the bench and may fail. -/
abbrev Assembly := EStateM AssemblyFault Workbench

namespace Assembly

theorem bind_eq_ok_iff
    {α β : Type} {first : Assembly α} {next : α → Assembly β}
    {before after : Workbench} {result : β} :
    (first >>= next) before = .ok result after ↔
      ∃ value between, first before = .ok value between ∧ next value between = .ok result after := by
  simp only [bind, EStateM.bind]
  cases first before with
  | ok value between =>
      constructor
      · intro run
        exact ⟨value, between, rfl, run⟩
      · rintro ⟨_, _, ⟨⟩, run⟩
        exact run
  | error fault between => simp

theorem pure_eq_ok_iff
    {α : Type} {value result : α} {before after : Workbench} :
    (pure value : Assembly α) before = .ok result after ↔ value = result ∧ before = after := by
  simp only [pure, EStateM.pure, EStateM.Result.ok.injEq]

/-- Refuse numbers that are too long to be written. -/
def checkNumbers (numbers : List Int) : Assembly Unit := fun bench =>
  match Numeral.checkAll numbers with
  | .error fault => .error (.longNumeral fault) bench
  | .ok _ => .ok () bench

/-- Add a warning with the given text. -/
def report (message : String) (address? : Option Int) : Assembly Unit := fun bench =>
  match bench.image.warn message address? with
  | .error fault => .error (.range fault) bench
  | .ok image => .ok () { bench with image := image }

/-- Warn of a concern. -/
def warn (concern : Concern) (address? : Option Int) : Assembly Unit := do
  checkNumbers concern.numbers
  report concern.message address?

/-- The token at an address. -/
def fetch (address : Int) : Assembly String := fun bench =>
  match bench.tokens.get? address with
  | some token => .ok token bench
  | none => .error .missingToken bench

/-- The address of a label, zero if it is not bound. -/
def labelAddress (spelling : String) : Assembly Int := fun bench =>
  .ok (bench.image.labels.resolve spelling) bench

/-- Whether a label is bound. -/
def isLabel (spelling : String) : Assembly Bool := fun bench =>
  .ok (bench.image.labels.contains spelling) bench

/-- The address behind the last token. -/
def endAddress : Assembly Int := fun bench =>
  .ok bench.nextAddress bench

/-- The leading numeral of a token. -/
def readNumeral (token : String) : Assembly NumeralReading := fun bench =>
  match Numeral.read token with
  | .ok reading => .ok reading bench
  | .error fault => .error (.longNumeral fault) bench

/-- The instruction word of an operation. -/
def instructionWord (index : Int) (kinds : List OperandKind) : Assembly Int := fun bench =>
  match Instruction.encode index kinds with
  | .ok word => .ok word bench
  | .error fault => .error (.instruction fault) bench

/-- The fault of a word for which an image has no room. -/
def roomFault (image : Image) : AssemblyFault :=
  match image.locate image.length, Numeral.check image.capacity with
  | .error fault, _ => .range fault
  | .ok _, .error fault => .longNumeral fault
  | .ok source, .ok _ => .capacityExceeded image.capacity source

/-- Emit a word at the end of the code. -/
def emit (word : Int) : Assembly Unit := fun bench =>
  if bench.image.capacity ≤ bench.image.length then
    .error (roomFault bench.image) bench
  else
    match SignedIndex.resolve? bench.image.code.size bench.image.length with
    | none => .error .missingWord bench
    | some position =>
        .ok () { bench with
          image := { bench.image with
            code := bench.image.code.setIfInBounds position (Word.wrap word)
            length := bench.image.length + 1 } }

/-- Emit words one after the other. -/
def emitAll : List Int → Assembly Unit
  | [] => pure ()
  | word :: rest => do
      emit word
      emitAll rest

/-- The address of a label in a marked reference; a label without one is reported. -/
def resolveLabel (name : String) (address : Int) : Assembly Int := do
  let value ← labelAddress name
  if value = unresolvedAddress then
    warn (.undefinedLabel name) (some address)
  return value

/-- The value of a token that has to be a number; a token that is not exactly one is reported. -/
def parseLiteral (token : String) (address : Int) : Assembly Int := do
  let reading ← readNumeral token
  unless reading.exact do
    warn (.invalidNumber token) (some address)
  return reading.value

/-- The kind and the value of an operand. -/
def assembleOperand (token : String) (address : Int) : Assembly (OperandKind × Int) :=
  match Token.shape token with
  | .reference name => do
      let value ← resolveLabel name address
      return (.reference, value)
  | .address name => do
      let value ← resolveLabel name address
      return (.literal, value)
  | .plain => do
      let value ← labelAddress token
      if value ≠ unresolvedAddress then
        return (.memory, value)
      else
        let literal ← parseLiteral token address
        return (.literal, literal)

/-- The operands in the `count` tokens from an address on. -/
def assembleOperands (address : Int) : (count : Nat) → Assembly (List (OperandKind × Int))
  | 0 => pure []
  | count + 1 => do
      let token ← fetch address
      let operand ← assembleOperand token address
      let rest ← assembleOperands (address + 1) count
      return operand :: rest

/-- The operand that stands in for one the source does not have. -/
def missingOperand : OperandKind × Int := (.literal, 0)

/--
Emit the instruction at an address with its operands and give the address
behind them.
-/
def assembleInstruction (index : Int) (operation : Operation) (address : Int) :
    Assembly Int := do
  let stop ← endAddress
  let available := min operation.arity (stop - address - 1)
  if available < operation.arity then
    warn (.missingOperands operation.name operation.arity available) (some address)
  let present ← assembleOperands (address + 1) available.toNat
  let operands :=
    present ++ List.replicate (operation.arity.toNat - available.toNat) missingOperand
  let word ← instructionWord index (operands.map Prod.fst)
  emit word
  emitAll (operands.map Prod.snd)
  return address + 1 + operation.arity

/-- The value of a bare word that is not marked as an address. -/
def assembleNumber (token : String) (address : Int) : Assembly Int := do
  let bound ← isLabel token
  if bound then
    warn (.bareLabel token) (some address)
    let reading ← readNumeral token
    return reading.value
  else
    parseLiteral token address

/-- The value of a bare word. -/
def assembleBareWord (token : String) (address : Int) : Assembly Int :=
  match Token.shape token with
  | .address name => resolveLabel name address
  | .reference _ => assembleNumber token address
  | .plain => assembleNumber token address

/-- Emit the item at an address and give the address behind it. -/
def assembleItem (catalog : Catalog) (address : Int) : Assembly Int := do
  let token ← fetch address
  match catalog.find? token with
  | some (index, operation) => assembleInstruction index operation address
  | none => do
      let word ← assembleBareWord token address
      emit word
      return address + 1

/-- Report an entry point behind the end of the code. -/
def checkEntry : Assembly Unit := fun bench =>
  if bench.image.entry ≠ codeStart ∧ bench.image.length ≤ bench.image.entry then
    warn (.entryPastEnd bench.image.entry bench.image.length) none bench
  else
    .ok () bench

end Assembly

namespace Workbench

/-- The number of words that still fit into the image. -/
def room (bench : Workbench) : Nat :=
  (bench.image.capacity - bench.image.length).toNat

end Workbench

namespace Assembly

/-! ## Room -/

theorem bench_checkNumbers
    {numbers : List Int} {before after : Workbench}
    (run : checkNumbers numbers before = .ok () after) :
    after = before := by
  simp only [checkNumbers] at run
  split at run <;> cases run
  rfl

theorem exists_source_of_report
    {message : String} {address? : Option Int} {before after : Workbench}
    (run : report message address? before = .ok () after) :
    ∃ source, after = { before with image := before.image.addWarning ⟨message, source⟩ } := by
  simp only [report] at run
  cases warned : before.image.warn message address? with
  | error fault =>
      rw [warned] at run
      cases run
  | ok image =>
      rw [warned] at run
      cases run
      obtain ⟨source, rfl⟩ := Image.eq_addWarning_of_warn warned
      exact ⟨source, rfl⟩

theorem room_report
    {message : String} {address? : Option Int} {before after : Workbench}
    (run : report message address? before = .ok () after) :
    after.room = before.room := by
  obtain ⟨source, rfl⟩ := exists_source_of_report run
  rfl

theorem room_warn
    {concern : Concern} {address? : Option Int} {before after : Workbench}
    (run : warn concern address? before = .ok () after) :
    after.room = before.room := by
  obtain ⟨_, between, checked, reported⟩ := bind_eq_ok_iff.mp run
  cases bench_checkNumbers checked
  exact room_report reported

theorem bench_fetch
    {address : Int} {token : String} {before after : Workbench}
    (run : fetch address before = .ok token after) :
    after = before := by
  simp only [fetch] at run
  split at run <;> cases run
  rfl

theorem bench_readNumeral
    {token : String} {reading : NumeralReading} {before after : Workbench}
    (run : readNumeral token before = .ok reading after) :
    after = before := by
  simp only [readNumeral] at run
  split at run <;> cases run
  rfl

theorem bench_instructionWord
    {index : Int} {kinds : List OperandKind} {word : Int} {before after : Workbench}
    (run : instructionWord index kinds before = .ok word after) :
    after = before := by
  simp only [instructionWord] at run
  split at run <;> cases run
  rfl

theorem room_emit
    {word : Int} {before after : Workbench} (run : emit word before = .ok () after) :
    after.room < before.room := by
  simp only [emit] at run
  split at run
  · cases run
  · split at run
    · cases run
    · cases run
      simp only [Workbench.room]
      omega

theorem room_emitAll
    {words : List Int} {before after : Workbench} (run : emitAll words before = .ok () after) :
    after.room ≤ before.room := by
  induction words generalizing before with
  | nil =>
      cases run
      exact Nat.le_refl _
  | cons word rest tailHolds =>
      obtain ⟨_, between, first, second⟩ := bind_eq_ok_iff.mp run
      exact Nat.le_trans (tailHolds second) (Nat.le_of_lt (room_emit first))

theorem room_resolveLabel
    {name : String} {address value : Int} {before after : Workbench}
    (run : resolveLabel name address before = .ok value after) :
    after.room = before.room := by
  obtain ⟨resolved, between, look, rest⟩ := bind_eq_ok_iff.mp run
  cases look
  split at rest
  · obtain ⟨_, warned, report, done⟩ := bind_eq_ok_iff.mp rest
    cases done
    exact room_warn report
  · cases rest
    rfl

theorem room_parseLiteral
    {token : String} {address value : Int} {before after : Workbench}
    (run : parseLiteral token address before = .ok value after) :
    after.room = before.room := by
  obtain ⟨reading, between, look, rest⟩ := bind_eq_ok_iff.mp run
  cases bench_readNumeral look
  split at rest
  · cases rest
    rfl
  · obtain ⟨_, warned, report, done⟩ := bind_eq_ok_iff.mp rest
    cases done
    exact room_warn report

theorem room_assembleOperand
    {token : String} {address : Int} {operand : OperandKind × Int} {before after : Workbench}
    (run : assembleOperand token address before = .ok operand after) :
    after.room = before.room := by
  cases shape : Token.shape token with
  | reference name =>
      simp only [assembleOperand, shape] at run
      obtain ⟨_, between, look, done⟩ := bind_eq_ok_iff.mp run
      cases done
      exact room_resolveLabel look
  | address name =>
      simp only [assembleOperand, shape] at run
      obtain ⟨_, between, look, done⟩ := bind_eq_ok_iff.mp run
      cases done
      exact room_resolveLabel look
  | plain =>
      simp only [assembleOperand, shape] at run
      obtain ⟨_, between, look, rest⟩ := bind_eq_ok_iff.mp run
      cases look
      split at rest
      · cases rest
        rfl
      · obtain ⟨_, read, parse, done⟩ := bind_eq_ok_iff.mp rest
        cases done
        exact room_parseLiteral parse

theorem room_assembleOperands
    {count : Nat} {address : Int} {operands : List (OperandKind × Int)}
    {before after : Workbench}
    (run : assembleOperands address count before = .ok operands after) :
    after.room = before.room := by
  induction count generalizing address operands before after with
  | zero =>
      cases run
      rfl
  | succ count tailHolds =>
      obtain ⟨_, fetched, look, run⟩ := bind_eq_ok_iff.mp run
      obtain ⟨_, assembled, first, run⟩ := bind_eq_ok_iff.mp run
      obtain ⟨_, finished, others, done⟩ := bind_eq_ok_iff.mp run
      cases done
      cases bench_fetch look
      exact (tailHolds others).trans (room_assembleOperand first)

theorem room_assembleInstruction
    {index : Int} {operation : Operation} {address next : Int} {before after : Workbench}
    (run : assembleInstruction index operation address before = .ok next after) :
    after.room < before.room := by
  obtain ⟨stop, between, look, run⟩ := bind_eq_ok_iff.mp run
  cases look
  have afterWarning : ∃ warned : Workbench, warned.room = before.room ∧
      (do
        let present ← assembleOperands (address + 1)
          (min operation.arity (before.nextAddress - address - 1)).toNat
        let operands :=
          present ++
            List.replicate
              (operation.arity.toNat -
                (min operation.arity (before.nextAddress - address - 1)).toNat)
              missingOperand
        let word ← instructionWord index (operands.map Prod.fst)
        emit word
        emitAll (operands.map Prod.snd)
        return address + 1 + operation.arity : Assembly Int) warned = .ok next after := by
    split at run
    · obtain ⟨_, warned, report, rest⟩ := bind_eq_ok_iff.mp run
      exact ⟨warned, room_warn report, rest⟩
    · exact ⟨before, rfl, run⟩
  obtain ⟨warned, sameRoom, run⟩ := afterWarning
  obtain ⟨present, gathered, operandsRun, run⟩ := bind_eq_ok_iff.mp run
  obtain ⟨word, encoded, encodeRun, run⟩ := bind_eq_ok_iff.mp run
  obtain ⟨_, emitted, emitRun, run⟩ := bind_eq_ok_iff.mp run
  obtain ⟨_, finished, emitAllRun, done⟩ := bind_eq_ok_iff.mp run
  cases done
  cases bench_instructionWord encodeRun
  calc after.room
      ≤ emitted.room := room_emitAll emitAllRun
    _ < gathered.room := room_emit emitRun
    _ = warned.room := room_assembleOperands operandsRun
    _ = before.room := sameRoom

theorem room_assembleNumber
    {token : String} {address word : Int} {before after : Workbench}
    (run : assembleNumber token address before = .ok word after) :
    after.room = before.room := by
  obtain ⟨bound, between, look, rest⟩ := bind_eq_ok_iff.mp run
  cases look
  split at rest
  · obtain ⟨_, warned, report, rest⟩ := bind_eq_ok_iff.mp rest
    obtain ⟨_, read, numeral, done⟩ := bind_eq_ok_iff.mp rest
    cases done
    cases bench_readNumeral numeral
    exact room_warn report
  · exact room_parseLiteral rest

theorem room_assembleBareWord
    {token : String} {address word : Int} {before after : Workbench}
    (run : assembleBareWord token address before = .ok word after) :
    after.room = before.room := by
  cases shape : Token.shape token with
  | address name =>
      simp only [assembleBareWord, shape] at run
      exact room_resolveLabel run
  | reference name =>
      simp only [assembleBareWord, shape] at run
      exact room_assembleNumber run
  | plain =>
      simp only [assembleBareWord, shape] at run
      exact room_assembleNumber run

/-- Every item that is emitted leaves less room. -/
theorem room_assembleItem
    {catalog : Catalog} {address next : Int} {before after : Workbench}
    (run : assembleItem catalog address before = .ok next after) :
    after.room < before.room := by
  obtain ⟨token, fetched, look, run⟩ := bind_eq_ok_iff.mp run
  cases bench_fetch look
  cases found : catalog.find? token with
  | some entry =>
      simp only [found] at run
      exact room_assembleInstruction run
  | none =>
      simp only [found] at run
      obtain ⟨word, assembled, bareWord, run⟩ := bind_eq_ok_iff.mp run
      obtain ⟨_, emitted, emitRun, done⟩ := bind_eq_ok_iff.mp run
      cases done
      calc after.room
          < assembled.room := room_emit emitRun
        _ = before.room := room_assembleBareWord bareWord

/-! ## The walk -/

/-- Emit the items from an address up to the end of the tokens. -/
def assembleFrom (catalog : Catalog) (stop address : Int) : Assembly Unit := fun bench =>
  if address < stop then
    match _step : assembleItem catalog address bench with
    | .ok next after => assembleFrom catalog stop next after
    | .error fault after => .error fault after
  else
    .ok () bench
termination_by bench => bench.room
decreasing_by exact room_assembleItem _step

/-- Emit the whole program and check its entry point. -/
def assemble (catalog : Catalog) : Assembly Unit := fun bench =>
  (do
    assembleFrom catalog bench.nextAddress bench.tokens.base
    checkEntry : Assembly Unit) bench

end Assembly

end WordMachine
