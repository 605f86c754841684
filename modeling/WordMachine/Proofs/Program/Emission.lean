import WordMachine.Proofs.Instruction
import WordMachine.Proofs.Numeral
import WordMachine.Proofs.Program.Bench

/-!
# What the second pass emits

For each step of the second pass one lemma says when it succeeds and which
remarks and words it leaves, up to `assembleFrom_eq_ok_iff`: the walk over the
tokens succeeds exactly when the items of the reading all denote numbers and
fit, and then it has performed these items in order.
-/

namespace WordMachine

namespace Assembly

open Program Workbench

/-! ## Single steps -/

theorem checkNumbers_eq_ok_iff
    {numbers : List Int} {before after : Workbench} :
    checkNumbers numbers before = .ok () after ↔
      (∀ number ∈ numbers, Numeral.IsWritable number) ∧ before = after := by
  rw [← Numeral.checkAll_eq_ok_iff, checkNumbers]
  cases Numeral.checkAll numbers with
  | error fault => simp
  | ok _ => simp

theorem report_eq
    {bench : Workbench} (countable : bench.image.HasCountableLines)
    (message : String) (address : Int) :
    report message (some address) bench =
      .ok () { bench with
        image := bench.image.addWarning ⟨message, bench.image.placeAt address⟩ } := by
  simp only [report, Image.warn, Image.locate_eq_placeAt countable, Except.map]

/-- A concern is reported exactly if the numbers in its text can be written. -/
theorem warn_eq_ok_iff
    {concern : Concern} {address : Int} {before after : Workbench}
    (countable : before.image.HasCountableLines) :
    warn concern (some address) before = .ok () after ↔
      (∀ number ∈ concern.numbers, Numeral.IsWritable number) ∧
        after = before.remark ⟨concern, address⟩ := by
  rw [warn, bind_eq_ok_iff]
  constructor
  · rintro ⟨_, between, checked, reported⟩
    rcases checkNumbers_eq_ok_iff.mp checked with ⟨writable, rfl⟩
    rw [report_eq countable] at reported
    cases reported
    exact ⟨writable, rfl⟩
  · rintro ⟨writable, rfl⟩
    exact ⟨(), before, checkNumbers_eq_ok_iff.mpr ⟨writable, rfl⟩, report_eq countable _ _⟩

theorem warn_eq
    {bench : Workbench} (countable : bench.image.HasCountableLines)
    {concern : Concern} (writable : ∀ number ∈ concern.numbers, Numeral.IsWritable number)
    (address : Int) :
    warn concern (some address) bench = .ok () (bench.remark ⟨concern, address⟩) :=
  (warn_eq_ok_iff countable).mpr ⟨writable, rfl⟩

/-- A concern that shows no number is reported. -/
theorem warn_of_no_numbers
    {bench : Workbench} (countable : bench.image.HasCountableLines)
    (concern : Concern) (plain : concern.numbers = []) (address : Int) :
    warn concern (some address) bench = .ok () (bench.remark ⟨concern, address⟩) :=
  warn_eq countable (by simp [plain]) address

theorem fetch_eq_ok_iff
    {address : Int} {token : String} {before after : Workbench} :
    fetch address before = .ok token after ↔
      before.tokens.get? address = some token ∧ before = after := by
  simp only [fetch]
  cases before.tokens.get? address with
  | none => simp
  | some found => simp

theorem instructionWord_eq_ok_iff
    {index : Nat} {kinds : List OperandKind} {word : Int} {before after : Workbench} :
    instructionWord index kinds before = .ok word after ↔
      Instruction.encode index kinds = .ok word ∧ before = after := by
  simp only [instructionWord]
  cases Instruction.encode index kinds with
  | error fault => simp
  | ok found => simp

theorem emit_eq_ok_iff
    {word : Int} {before after : Workbench} (sound : before.image.Sound) :
    emit word before = .ok () after ↔
      before.image.length < before.image.capacity ∧ after = before.push word := by
  simp only [emit]
  by_cases room : before.image.length < before.image.capacity
  · have inside := length_toNat_lt_of_sound sound room
    have start := sound.codeStart_le_length
    rw [codeStart] at start
    have place : before.image.length = (before.image.length.toNat : Int) := by omega
    have resolved :
        SignedIndex.resolve? before.image.code.size before.image.length =
          some before.image.length.toNat := by
      conv =>
        lhs
        rw [place]
      exact SignedIndex.resolve?_natCast inside
    rw [if_neg (by omega), resolved]
    simp [room, push, eq_comm]
  · rw [if_pos (by omega)]
    simp [room]

theorem emitAll_eq_ok_iff
    {words : List Int} {before after : Workbench} (sound : before.Sound) :
    emitAll words before = .ok () after ↔
      before.image.length + words.length ≤ before.image.capacity ∧
        after = before.pushAll words := by
  induction words generalizing before with
  | nil =>
      have bound := sound.length_le_capacity
      simp only [emitAll, pure_eq_ok_iff, pushAll, List.foldl_nil, true_and, List.length_nil]
      constructor
      · intro same
        exact ⟨by simpa using bound, same.symm⟩
      · intro result
        exact result.2.symm
  | cons word rest tailHolds =>
      simp only [emitAll, bind_eq_ok_iff, emit_eq_ok_iff sound.toSound, List.length_cons]
      constructor
      · rintro ⟨_, between, ⟨room, rfl⟩, others⟩
        rw [tailHolds (sound.push room word)] at others
        simp only [push] at others
        exact ⟨by omega, others.2⟩
      · rintro ⟨room, rfl⟩
        have roomForOne : before.image.length < before.image.capacity := by omega
        refine ⟨(), before.push word, ⟨roomForOne, rfl⟩, ?_⟩
        rw [tailHolds (sound.push roomForOne word)]
        simp only [push]
        exact ⟨by omega, rfl⟩

/-! ## Values of tokens -/

/-- Settle on a valuation: its fault if it has none, else its value with the remark it needs. -/
def settle (valuation : Except AssemblyFault Valuation) (address : Int) : Assembly Int :=
  fun bench =>
    match valuation with
    | .error fault => .error fault bench
    | .ok found => .ok found.value (bench.remarkAll (remarksOf (.ok found) address))

theorem settle_eq_ok_iff
    {valuation : Except AssemblyFault Valuation} {address value : Int}
    {before after : Workbench} :
    settle valuation address before = .ok value after ↔
      valuation.map Valuation.value = .ok value ∧
        after = before.remarkAll (remarksOf valuation address) := by
  cases valuation with
  | error fault => simp [settle, Except.map]
  | ok found => simp [settle, Except.map, eq_comm]

section

variable {bench : Workbench} (countable : bench.image.HasCountableLines)

include countable

theorem resolveLabel_eq_settle (name : String) (address : Int) :
    resolveLabel name address bench =
      settle (.ok (Valuation.ofLabel bench.image.labels name)) address bench := by
  have warned := warn_of_no_numbers countable (.undefinedLabel name) rfl address
  simp only [resolveLabel, bind, EStateM.bind, labelAddress, settle, Valuation.ofLabel]
  by_cases unresolved : bench.image.labels.resolve name = unresolvedAddress
  · simp only [unresolved, if_true, EStateM.bind, warned]
    rfl
  · simp only [unresolved, if_false]
    rfl

theorem parseLiteral_eq_settle (token : String) (address : Int) :
    parseLiteral token address bench =
      settle (Valuation.ofNumber token) address bench := by
  have warned := warn_of_no_numbers countable (.invalidNumber token) rfl address
  simp only [parseLiteral, bind, EStateM.bind, readNumeral, settle, Valuation.ofNumber]
  cases Numeral.read token with
  | error fault => rfl
  | ok reading =>
      rcases reading with ⟨value, exact⟩
      cases exact with
      | true => rfl
      | false =>
          simp only [Bool.false_eq_true, if_false, EStateM.bind, warned]
          rfl

/-- An operand settles on its valuation under the labels of the bench. -/
theorem assembleOperand_eq_settle (token : String) (address : Int) :
    assembleOperand token address bench =
      (do
        let value ← settle (Valuation.ofOperand bench.image.labels token) address
        return (operandKind bench.image.labels token, value) : Assembly _) bench := by
  simp only [assembleOperand, operandKind, Valuation.ofOperand]
  cases Token.shape token with
  | reference name => simp only [bind, EStateM.bind, resolveLabel_eq_settle countable]
  | address name => simp only [bind, EStateM.bind, resolveLabel_eq_settle countable]
  | plain =>
      simp only [bind, EStateM.bind, labelAddress]
      by_cases unresolved : bench.image.labels.resolve token = unresolvedAddress
      · simp only [unresolved, ne_eq, not_true_eq_false, if_false, if_true]
        simp only [EStateM.bind, parseLiteral_eq_settle countable]
      · simp only [unresolved, ne_eq, not_false_eq_true, if_true, if_false]
        rfl

end

theorem assembleOperand_eq_ok_iff
    {token : String} {address : Int} {operand : OperandKind × Int} {before after : Workbench}
    (countable : before.image.HasCountableLines) :
    assembleOperand token address before = .ok operand after ↔
      operand.1 = operandKind before.image.labels token ∧
        (Part.operand token).value before.image.labels = .ok operand.2 ∧
          after = before.remarkAll
            (remarksOf (Valuation.ofOperand before.image.labels token) address) := by
  rw [assembleOperand_eq_settle countable, bind_eq_ok_iff]
  constructor
  · rintro ⟨value, between, settled, done⟩
    rcases settle_eq_ok_iff.mp settled with ⟨found, rfl⟩
    rcases pure_eq_ok_iff.mp done with ⟨rfl, rfl⟩
    exact ⟨rfl, found, rfl⟩
  · rintro ⟨kind, found, rfl⟩
    refine ⟨operand.2, _, settle_eq_ok_iff.mpr ⟨found, rfl⟩, ?_⟩
    rw [← kind]
    rfl

theorem assembleOperands_eq_ok_iff
    {count : Nat} {address : Int} {operands : List (OperandKind × Int)}
    {before after : Workbench} (countable : before.image.HasCountableLines) :
    assembleOperands address count before = .ok operands after ↔
      ∃ tokens,
        before.tokens.slice? address count = some tokens ∧
          (∀ token ∈ tokens, (Part.operand token).IsReadable before.image.labels) ∧
            operands = tokens.map (fun token =>
              (operandKind before.image.labels token,
                (Part.operand token).number before.image.labels)) ∧
              after = before.remarkAll
                (operandRemarks before.image.labels address tokens) := by
  induction count generalizing address operands before after with
  | zero =>
      simp only [assembleOperands, pure_eq_ok_iff, TokenStream.slice?]
      constructor
      · rintro ⟨rfl, rfl⟩
        exact ⟨[], rfl, by simp, rfl, rfl⟩
      · rintro ⟨tokens, ⟨⟩, _, rfl, rfl⟩
        exact ⟨rfl, rfl⟩
  | succ count tailHolds =>
      simp only [assembleOperands, bind_eq_ok_iff, TokenStream.slice?]
      constructor
      · rintro ⟨token, _, fetched, operand, between, first, rest, _, others, done⟩
        rcases fetch_eq_ok_iff.mp fetched with ⟨found, rfl⟩
        rcases (assembleOperand_eq_ok_iff countable).mp first with ⟨kind, value, rfl⟩
        rcases pure_eq_ok_iff.mp done with ⟨rfl, rfl⟩
        have same := sameProgram_remarkAll before
          (remarksOf (Valuation.ofOperand before.image.labels token) address)
        rw [tailHolds (same.hasCountableLines countable), same.tokens_eq, same.labels_eq] at others
        rcases others with ⟨tokens, slice, readable, rfl, rfl⟩
        have number := Part.value_eq_number ⟨operand.2, value⟩
        rw [value] at number
        refine ⟨token :: tokens, by rw [found, slice], ?_, ?_, ?_⟩
        · intro other member
          rcases List.mem_cons.mp member with rfl | inRest
          · exact ⟨operand.2, value⟩
          · exact readable other inRest
        · rw [List.map_cons, ← kind, ← Except.ok.inj number]
        · rw [operandRemarks, remarkAll_append]
      · rintro ⟨tokens, slice, readable, rfl, rfl⟩
        cases found : before.tokens.get? address with
        | none => simp [found] at slice
        | some token =>
            cases others : before.tokens.slice? (address + 1) count with
            | none => simp [found, others] at slice
            | some rest =>
                simp only [found, others, Option.some.injEq] at slice
                subst slice
                have same := sameProgram_remarkAll before
                  (remarksOf (Valuation.ofOperand before.image.labels token) address)
                have value := Part.value_eq_number (readable token (by simp))
                refine ⟨token, before, fetch_eq_ok_iff.mpr ⟨found, rfl⟩,
                  (operandKind before.image.labels token,
                    (Part.operand token).number before.image.labels), _,
                  (assembleOperand_eq_ok_iff countable).mpr ⟨rfl, value, rfl⟩,
                  _, _, (tailHolds (same.hasCountableLines countable)).mpr
                    ⟨rest, ?_, ?_, rfl, rfl⟩, ?_⟩
                · rw [same.tokens_eq, others]
                · intro other member
                  rw [same.labels_eq]
                  exact readable other (List.mem_cons_of_mem _ member)
                · rw [same.labels_eq, operandRemarks, remarkAll_append]
                  rfl

/-! ## Items -/

/-- Emitting an item on the first bench gives the address behind it and the second bench. -/
structure Emits (before : Workbench) (item : Item) (next : Int) (after : Workbench) : Prop where
  readable : ∀ part ∈ item.parts, part.IsReadable before.image.labels
  room : before.image.length + item.parts.length ≤ before.image.capacity
  next_eq : next = item.next
  after_eq : after = before.perform item

/-- Emit an instruction whose operands are known. -/
def emitInstruction (index : Nat) (operands : List (OperandKind × Int)) : Assembly Unit := do
  let word ← instructionWord index (operands.map Prod.fst)
  emit word
  emitAll (operands.map Prod.snd)

theorem emitInstruction_eq_ok_iff
    {index : Nat} {operands : List (OperandKind × Int)} {before after : Workbench}
    (sound : before.Sound) :
    emitInstruction index operands before = .ok () after ↔
      ∃ word,
        Instruction.encode index (operands.map Prod.fst) = .ok word ∧
          before.image.length + (operands.length + 1 : Nat) ≤ before.image.capacity ∧
            after = before.pushAll (word :: operands.map Prod.snd) := by
  simp only [emitInstruction, bind_eq_ok_iff]
  constructor
  · rintro ⟨word, _, encodeRun, _, _, emitRun, emitAllRun⟩
    rcases instructionWord_eq_ok_iff.mp encodeRun with ⟨encoded, rfl⟩
    rcases (emit_eq_ok_iff sound.toSound).mp emitRun with ⟨roomForOne, rfl⟩
    rcases (emitAll_eq_ok_iff (sound.push roomForOne word)).mp emitAllRun with ⟨room, rfl⟩
    refine ⟨word, encoded, ?_, rfl⟩
    simp only [push, List.length_map] at room
    omega
  · rintro ⟨word, encoded, room, rfl⟩
    have roomForOne : before.image.length < before.image.capacity := by omega
    refine ⟨word, before, instructionWord_eq_ok_iff.mpr ⟨encoded, rfl⟩, (), before.push word,
      (emit_eq_ok_iff sound.toSound).mpr ⟨roomForOne, rfl⟩, ?_⟩
    refine (emitAll_eq_ok_iff (sound.push roomForOne word)).mpr ⟨?_, rfl⟩
    simp only [push, List.length_map]
    omega

/-- What is left of an instruction once missing operands were reported. -/
def completeInstruction (index : Nat) (operation : Operation) (address : Int) (count : Nat) :
    Assembly Int := do
  let present ← assembleOperands (address + 1) count
  emitInstruction index
    (present ++ List.replicate (operation.arity.toNat - count) missingOperand)
  return address + 1 + operation.arity

theorem assembleInstruction_eq_complete
    {index : Nat} {operation : Operation} {address : Int} {bench : Workbench} {count : Nat}
    (countable : bench.image.HasCountableLines)
    (available : (min operation.arity (bench.nextAddress - address - 1)).toNat = count)
    (inside : address < bench.nextAddress)
    (writable : (count : Int) < operation.arity → Numeral.IsWritable operation.arity) :
    assembleInstruction index operation address bench =
      completeInstruction index operation address count
        (bench.remarkAll
          (if (count : Int) < operation.arity then
            [⟨.missingOperands operation.name operation.arity count, address⟩] else [])) := by
  simp only [assembleInstruction, completeInstruction, emitInstruction, bind_assoc]
  by_cases missing : (count : Int) < operation.arity
  · have reported :
        min operation.arity (bench.nextAddress - address - 1) = (count : Int) := by
      omega
    have numbers : ∀ number ∈
        (Concern.missingOperands operation.name operation.arity count).numbers,
        Numeral.IsWritable number := by
      have fewer : Numeral.IsWritable (count : Int) :=
        (writable missing).of_natAbs_le (by omega)
      simpa [Concern.numbers] using ⟨writable missing, fewer⟩
    have warned := warn_eq countable numbers address
    simp only [bind, EStateM.bind, endAddress, reported, missing, if_true, warned]
    rfl
  · have complete :
        ¬ min operation.arity (bench.nextAddress - address - 1) < operation.arity := by
      omega
    simp only [bind, EStateM.bind, endAddress, available, complete, missing, if_false]
    rfl

/-- An instruction that lacks operands is assembled only if its arity can be written. -/
theorem writable_of_assembleInstruction
    {index : Int} {operation : Operation} {address next : Int} {before after : Workbench}
    (run : assembleInstruction index operation address before = .ok next after)
    (missing : min operation.arity (before.nextAddress - address - 1) < operation.arity) :
    Numeral.IsWritable operation.arity := by
  rw [assembleInstruction, bind_eq_ok_iff] at run
  rcases run with ⟨_, _, look, run⟩
  cases look
  rw [if_pos missing] at run
  rcases bind_eq_ok_iff.mp run with ⟨_, _, warned, _⟩
  rcases bind_eq_ok_iff.mp warned with ⟨_, _, checked, _⟩
  exact (checkNumbers_eq_ok_iff.mp checked).1 _ List.mem_cons_self

theorem mnemonic_value_eq_ok_iff
    {labels : LabelTable} {index : Nat} {operation : Operation} {operands : List String}
    {word : Int} :
    (Part.mnemonic index operation operands).value labels = .ok word ↔
      Instruction.encode index
        (operands.map (operandKind labels) ++
          List.replicate (operation.arity.toNat - operands.length) .literal) = .ok word := by
  simp only [Part.value]
  cases Instruction.encode index
      (operands.map (operandKind labels) ++
        List.replicate (operation.arity.toNat - operands.length) .literal) with
  | error fault =>
      constructor
      · intro impossible
        cases impossible
      · intro impossible
        cases impossible
  | ok found =>
      constructor
      · rintro ⟨⟩
        rfl
      · rintro ⟨⟩
        rfl

/-- An instruction that has a word has few operands. -/
theorem writable_of_readable_mnemonic
    {labels : LabelTable} {index : Nat} {operation : Operation} {operands : List String}
    (readable : (Part.mnemonic index operation operands).IsReadable labels)
    (missing : (operands.length : Int) < operation.arity) :
    Numeral.IsWritable operation.arity := by
  rcases readable with ⟨word, value⟩
  have few := Instruction.length_le_of_encode (mnemonic_value_eq_ok_iff.mp value)
  rw [List.length_append, List.length_map, List.length_replicate, Instruction.maxOperands] at few
  apply Numeral.isWritable_of_natAbs_lt
  omega

theorem readable_instruction_iff
    {labels : LabelTable} {index : Nat} {operation : Operation} {operands : List String}
    {address : Int} :
    (∀ part ∈ (Item.mk address (.instruction index operation operands)).parts,
        part.IsReadable labels) ↔
      (Part.mnemonic index operation operands).IsReadable labels ∧
        ∀ token ∈ operands, (Part.operand token).IsReadable labels := by
  simp only [Item.parts, List.forall_mem_cons, List.forall_mem_append, List.forall_mem_map]
  constructor
  · rintro ⟨head, present, _⟩
    exact ⟨head, present⟩
  · rintro ⟨head, present⟩
    refine ⟨head, present, ?_⟩
    intro part member
    rw [List.eq_of_mem_replicate member]
    exact ⟨0, rfl⟩

theorem numbers_instruction
    (labels : LabelTable) (index : Nat) (operation : Operation) (operands : List String)
    (address : Int) :
    (Item.mk address (.instruction index operation operands)).numbers labels =
      (Part.mnemonic index operation operands).number labels ::
        (operands.map (fun token => (Part.operand token).number labels) ++
          List.replicate (operation.arity.toNat - operands.length) 0) := by
  simp [Item.numbers, Item.parts, Item.lacking, Part.number, Part.value, Function.comp_def]

theorem length_of_slice?
    {stream : TokenStream} {address : Int} {count : Nat} {tokens : List String}
    (slice : stream.slice? address count = some tokens) :
    tokens.length = count := by
  induction count generalizing address tokens with
  | zero =>
      cases slice
      rfl
  | succ count tailHolds =>
      simp only [TokenStream.slice?] at slice
      split at slice
      · cases slice
        rw [List.length_cons, tailHolds (by assumption)]
      · cases slice

/-- Missing operands of an instruction are literals of value zero. -/
theorem completed_operands
    (labels : LabelTable) (operands : List String) (lacking : Nat) :
    (operands.map (fun token => (operandKind labels token, (Part.operand token).number labels)) ++
        List.replicate lacking missingOperand).map Prod.fst =
        operands.map (operandKind labels) ++ List.replicate lacking .literal ∧
      (operands.map (fun token => (operandKind labels token, (Part.operand token).number labels)) ++
        List.replicate lacking missingOperand).map Prod.snd =
        operands.map (fun token => (Part.operand token).number labels) ++
          List.replicate lacking 0 := by
  constructor
  · simp [missingOperand, Function.comp_def]
  · simp [missingOperand, Function.comp_def]

theorem completeInstruction_eq_ok_iff
    {index : Nat} {operation : Operation} {address next : Int} {operands : List String}
    {before after : Workbench} (sound : before.Sound)
    (slice : before.tokens.slice? (address + 1) operands.length = some operands) :
    completeInstruction index operation address operands.length before = .ok next after ↔
      (∀ part ∈ (Item.mk address (.instruction index operation operands)).parts,
          part.IsReadable before.image.labels) ∧
        before.image.length +
            (Item.mk address (.instruction index operation operands)).parts.length ≤
            before.image.capacity ∧
          next = address + 1 + operation.arity ∧
            after =
              (before.remarkAll
                (operandRemarks before.image.labels (address + 1) operands)).pushAll
                ((Item.mk address (.instruction index operation operands)).numbers
                  before.image.labels) := by
  have gatheredSound :=
    sound.remarkAll (operandRemarks before.image.labels (address + 1) operands)
  have same :=
    sameProgram_remarkAll before (operandRemarks before.image.labels (address + 1) operands)
  have completed :=
    completed_operands before.image.labels operands (operation.arity.toNat - operands.length)
  have size :
      (Item.mk address (.instruction index operation operands)).parts.length =
        operands.length + (operation.arity.toNat - operands.length) + 1 := by
    simp [Item.parts, Item.lacking]
  rw [readable_instruction_iff, numbers_instruction, size]
  simp only [completeInstruction, bind_eq_ok_iff]
  constructor
  · rintro ⟨present, _, operandsRun, _, _, emitRun, done⟩
    rcases (assembleOperands_eq_ok_iff sound.countable).mp operandsRun with
      ⟨found, foundSlice, readable, rfl, rfl⟩
    rw [slice] at foundSlice
    cases foundSlice
    rcases (emitInstruction_eq_ok_iff gatheredSound).mp emitRun with ⟨word, encoded, room, rfl⟩
    rcases pure_eq_ok_iff.mp done with ⟨rfl, rfl⟩
    rw [completed.1] at encoded
    have value := mnemonic_value_eq_ok_iff.mpr encoded
    have number := Part.value_eq_number ⟨word, value⟩
    rw [value] at number
    refine ⟨⟨⟨word, value⟩, readable⟩, ?_, rfl, ?_⟩
    · rw [length_remarkAll, same.capacity_eq, List.length_append, List.length_map,
        List.length_replicate] at room
      exact room
    · rw [completed.2, Except.ok.inj number]
  · rintro ⟨⟨head, readable⟩, room, rfl, rfl⟩
    have encoded := mnemonic_value_eq_ok_iff.mp (Part.value_eq_number head)
    refine ⟨_, _,
      (assembleOperands_eq_ok_iff sound.countable).mpr ⟨operands, slice, readable, rfl, rfl⟩, (), _,
      (emitInstruction_eq_ok_iff gatheredSound).mpr
        ⟨(Part.mnemonic index operation operands).number before.image.labels, ?_, ?_, rfl⟩, ?_⟩
    · rw [completed.1]
      exact encoded
    · rw [length_remarkAll, same.capacity_eq, List.length_append, List.length_map,
        List.length_replicate]
      exact room
    · rw [completed.2]
      rfl

/-- An instruction is emitted as the item that its operation and its operands form. -/
theorem assembleInstruction_eq_ok_iff
    {index : Nat} {operation : Operation} {address next : Int} {operands : List String}
    {before after : Workbench} (sound : before.Sound) (inside : address < before.nextAddress)
    (slice : before.tokens.slice? (address + 1)
      (min operation.arity (before.nextAddress - address - 1)).toNat = some operands) :
    assembleInstruction index operation address before = .ok next after ↔
      Emits before ⟨address, .instruction index operation operands⟩ next after := by
  have size := length_of_slice? slice
  rw [← size] at slice
  have same := sameProgram_remarkAll before (Item.missingRemarks address operation operands)
  have complete :
      completeInstruction index operation address operands.length
          (before.remarkAll (Item.missingRemarks address operation operands)) = .ok next after ↔
        _ :=
    completeInstruction_eq_ok_iff
      (sound.remarkAll _) (by rw [same.tokens_eq]; exact slice)
  rw [same.labels_eq, same.capacity_eq, length_remarkAll, ← remarkAll_append] at complete
  constructor
  · intro run
    have writable : (operands.length : Int) < operation.arity →
        Numeral.IsWritable operation.arity := by
      intro missing
      exact writable_of_assembleInstruction run (by omega)
    rw [assembleInstruction_eq_complete sound.countable size.symm inside writable] at run
    rcases complete.mp run with ⟨readable, room, nextAddress, performed⟩
    exact ⟨readable, room, nextAddress, performed⟩
  · rintro ⟨readable, room, nextAddress, performed⟩
    have writable := writable_of_readable_mnemonic (readable_instruction_iff.mp readable).1
    rw [assembleInstruction_eq_complete sound.countable size.symm inside writable]
    exact complete.mpr ⟨readable, room, nextAddress, performed⟩

theorem exists_slice_of_assembleInstruction
    {index : Nat} {operation : Operation} {address next : Int} {before after : Workbench}
    (countable : before.image.HasCountableLines) (inside : address < before.nextAddress)
    (run : assembleInstruction index operation address before = .ok next after) :
    ∃ operands,
      before.tokens.slice? (address + 1)
        (min operation.arity (before.nextAddress - address - 1)).toNat = some operands := by
  have writable : ((min operation.arity (before.nextAddress - address - 1)).toNat : Int) <
      operation.arity → Numeral.IsWritable operation.arity := by
    intro missing
    exact writable_of_assembleInstruction run (by omega)
  rw [assembleInstruction_eq_complete countable rfl inside writable, completeInstruction,
    bind_eq_ok_iff] at run
  rcases run with ⟨_, _, operandsRun, _⟩
  have same := sameProgram_remarkAll before
    (if ((min operation.arity (before.nextAddress - address - 1)).toNat : Int) <
        operation.arity then
      [⟨.missingOperands operation.name operation.arity
        (min operation.arity (before.nextAddress - address - 1)).toNat, address⟩] else [])
  rcases (assembleOperands_eq_ok_iff (same.hasCountableLines countable)).mp operandsRun with
    ⟨operands, slice, _⟩
  rw [same.tokens_eq] at slice
  exact ⟨operands, slice⟩

theorem assembleNumber_eq_ok_iff
    {token : String} {address value : Int} {before after : Workbench}
    (countable : before.image.HasCountableLines) :
    assembleNumber token address before = .ok value after ↔
      (if before.image.labels.contains token then Valuation.ofBareLabel token
          else Valuation.ofNumber token).map Valuation.value = .ok value ∧
        after = before.remarkAll
          (remarksOf (if before.image.labels.contains token then Valuation.ofBareLabel token
            else Valuation.ofNumber token) address) := by
  have warned := warn_of_no_numbers countable (.bareLabel token) rfl address
  simp only [assembleNumber, bind, EStateM.bind, isLabel]
  cases bound : before.image.labels.contains token with
  | true =>
      simp only [if_true, Valuation.ofBareLabel]
      simp only [EStateM.bind, warned, readNumeral]
      cases Numeral.read token with
      | error fault => simp [Except.map]
      | ok reading => simp [Except.map, eq_comm, remarksOf, remarkAll, pure, EStateM.pure]
  | false =>
      simp only [Bool.false_eq_true, if_false]
      rw [parseLiteral_eq_settle countable, settle_eq_ok_iff]

theorem assembleBareWord_eq_ok_iff
    {token : String} {address value : Int} {before after : Workbench}
    (countable : before.image.HasCountableLines) :
    assembleBareWord token address before = .ok value after ↔
      (Part.bareWord token).value before.image.labels = .ok value ∧
        after = before.remarkAll
          (remarksOf (Valuation.ofBareWord before.image.labels token) address) := by
  simp only [assembleBareWord, Part.value, Valuation.ofBareWord]
  cases Token.shape token with
  | address name =>
      simp only
      rw [resolveLabel_eq_settle countable, settle_eq_ok_iff]
  | reference name => exact assembleNumber_eq_ok_iff countable
  | plain => exact assembleNumber_eq_ok_iff countable

theorem emits_bareWord_iff
    {token : String} {address next : Int} {before after : Workbench} (sound : before.Sound) :
    (∃ word between,
      assembleBareWord token address before = .ok word between ∧
        (do
          emit word
          return address + 1 : Assembly Int) between = .ok next after) ↔
      Emits before ⟨address, .bareWord token⟩ next after := by
  have same := sameProgram_remarkAll before
    (remarksOf (Valuation.ofBareWord before.image.labels token) address)
  have remarked := sound.remarkAll
    (remarksOf (Valuation.ofBareWord before.image.labels token) address)
  constructor
  · rintro ⟨word, between, bareWord, run⟩
    rcases (assembleBareWord_eq_ok_iff sound.countable).mp bareWord with ⟨value, rfl⟩
    rcases bind_eq_ok_iff.mp run with ⟨_, _, emitRun, done⟩
    rcases (emit_eq_ok_iff remarked.toSound).mp emitRun with ⟨room, rfl⟩
    rcases pure_eq_ok_iff.mp done with ⟨rfl, rfl⟩
    rw [length_remarkAll, same.capacity_eq] at room
    have number := Part.value_eq_number ⟨word, value⟩
    rw [value] at number
    refine ⟨?_, ?_, rfl, ?_⟩
    · simp only [Item.parts, List.forall_mem_singleton]
      exact ⟨word, value⟩
    · simp only [Item.parts, List.length_singleton]
      omega
    · rw [Except.ok.inj number]
      rfl
  · rintro ⟨readable, room, rfl, rfl⟩
    simp only [Item.parts, List.forall_mem_singleton, List.length_singleton] at readable room
    refine ⟨_, _,
      (assembleBareWord_eq_ok_iff sound.countable).mpr ⟨Part.value_eq_number readable, rfl⟩, ?_⟩
    refine bind_eq_ok_iff.mpr ⟨(), _, (emit_eq_ok_iff remarked.toSound).mpr ⟨?_, rfl⟩, rfl⟩
    rw [length_remarkAll, same.capacity_eq]
    omega

/-- A step of the walk emits the item at its address. -/
theorem assembleItem_eq_ok_iff
    {catalog : Catalog} {address next : Int} {before after : Workbench}
    (sound : before.Sound) (inside : address < before.nextAddress) :
    assembleItem catalog address before = .ok next after ↔
      ∃ item, itemAt? catalog before.tokens address = some item ∧
        Emits before item next after := by
  cases found : before.tokens.get? address with
  | none =>
      have run : assembleItem catalog address before = .error .missingToken before := by
        simp only [assembleItem, bind, EStateM.bind, fetch, found]
      simp [run, itemAt?, found]
  | some token =>
      cases listed : catalog.find? token with
      | none =>
          have run :
              assembleItem catalog address before =
                (do
                  let word ← assembleBareWord token address
                  emit word
                  return address + 1 : Assembly Int) before := by
            simp only [assembleItem, bind, EStateM.bind, fetch, found, listed]
          have here :
              itemAt? catalog before.tokens address = some ⟨address, .bareWord token⟩ := by
            simp only [itemAt?, found, listed]
          rw [run, here, bind_eq_ok_iff, emits_bareWord_iff sound]
          simp
      | some entry =>
          rcases entry with ⟨index, operation⟩
          have run :
              assembleItem catalog address before =
                assembleInstruction index operation address before := by
            simp only [assembleItem, bind, EStateM.bind, fetch, found, listed]
          have here :
              itemAt? catalog before.tokens address =
                (before.tokens.slice? (address + 1)
                  (min operation.arity (before.nextAddress - address - 1)).toNat).map
                  (fun operands => ⟨address, .instruction index operation operands⟩) := by
            simp only [itemAt?, found, listed, Workbench.nextAddress]
          rw [run, here]
          cases slice : before.tokens.slice? (address + 1)
              (min operation.arity (before.nextAddress - address - 1)).toNat with
          | some operands =>
              rw [assembleInstruction_eq_ok_iff sound inside slice]
              simp
          | none =>
              simp only [Option.map_none, reduceCtorEq, false_and, exists_false, iff_false]
              intro assembled
              rcases exists_slice_of_assembleInstruction sound.countable inside assembled with ⟨_, present⟩
              rw [present] at slice
              cases slice

/-! ## The walk -/

theorem assembleFrom_of_lt
    {catalog : Catalog} {stop address : Int} {bench : Workbench} (inside : address < stop) :
    assembleFrom catalog stop address bench =
      (do
        let next ← assembleItem catalog address
        assembleFrom catalog stop next : Assembly Unit) bench := by
  rw [assembleFrom, if_pos inside]
  simp only [bind, EStateM.bind]
  split <;> simp_all

theorem assembleFrom_of_le
    {catalog : Catalog} {stop address : Int} {bench : Workbench} (atEnd : stop ≤ address) :
    assembleFrom catalog stop address bench = .ok () bench := by
  rw [assembleFrom, if_neg (by omega)]

/-- The bench after an item is as sound as before, and its walk ends at the same place. -/
theorem Emits.carries
    {before after : Workbench} {item : Item} {next : Int} (sound : before.Sound)
    (emits : Emits before item next after) :
    after.Sound ∧ SameProgram before after ∧
      after.image.length = before.image.length + item.parts.length := by
  rcases emits with ⟨_, room, _, rfl⟩
  refine ⟨?_, sameProgram_perform before item, ?_⟩
  · have single : before.image.length + ([item].flatMap Item.parts).length ≤
        before.image.capacity := by
      simpa using room
    exact sound.performAll single
  · simpa using length_performAll before [item]

/--
The walk succeeds exactly when the items of the reading denote numbers and
fit, and it performs them in order.  Forward, the induction follows the walk;
backward, it follows the reading.
-/
theorem assembleFrom_eq_ok_iff
    {catalog : Catalog} {stop address : Int} {before after : Workbench}
    (sound : before.Sound) (stop_eq : before.nextAddress = stop) :
    assembleFrom catalog stop address before = .ok () after ↔
      ∃ items,
        Walk catalog before.tokens address items ∧
          IsReadable before.image.labels items ∧
            before.image.length + (items.flatMap Item.parts).length ≤ before.image.capacity ∧
              after = items.foldl perform before := by
  constructor
  · intro run
    induction address, before using assembleFrom.induct catalog stop with
    | case1 address before inside next between step tailHolds =>
        rw [← stop_eq] at inside
        rw [assembleFrom_of_lt (by omega), bind_eq_ok_iff] at run
        rcases run with ⟨_, _, stepAgain, rest⟩
        rw [step] at stepAgain
        cases stepAgain
        rcases (assembleItem_eq_ok_iff sound inside).mp step with ⟨item, here, emits⟩
        rcases emits.carries sound with ⟨betweenSound, same, grown⟩
        have sameEnd : between.nextAddress = stop := by
          rw [← stop_eq, Workbench.nextAddress, Workbench.nextAddress, same.tokens_eq]
        rcases tailHolds betweenSound sameEnd rest with ⟨items, walk, readable, room, rfl⟩
        rw [same.tokens_eq, emits.next_eq] at walk
        rw [same.labels_eq] at readable
        rw [same.capacity_eq, grown] at room
        refine ⟨item :: items, .step inside here walk, ?_, ?_, ?_⟩
        · exact List.forall_mem_cons.mpr ⟨emits.readable, readable⟩
        · rw [List.flatMap_cons, List.length_append]
          omega
        · rw [List.foldl_cons, emits.after_eq]
    | case2 address before inside fault between step =>
        rw [assembleFrom_of_lt inside, bind_eq_ok_iff] at run
        rcases run with ⟨_, _, stepAgain, _⟩
        rw [step] at stepAgain
        cases stepAgain
    | case3 address before atEnd =>
        rw [assembleFrom_of_le (by omega)] at run
        cases run
        have bound := sound.length_le_capacity
        exact ⟨[], .done (by rw [← Workbench.nextAddress]; omega), by simp [IsReadable],
          by simpa using bound, rfl⟩
  · rintro ⟨items, walk, readable, room, rfl⟩
    generalize stream_eq : before.tokens = stream at walk
    induction walk generalizing before with
    | done atEnd =>
        rw [← stream_eq, ← Workbench.nextAddress] at atEnd
        rw [assembleFrom_of_le (by omega)]
        rfl
    | @step address item rest inside here tail tailHolds =>
        rw [List.flatMap_cons, List.length_append] at room
        rw [IsReadable, List.forall_mem_cons] at readable
        have emits : Emits before item item.next (before.perform item) :=
          ⟨readable.1, by omega, rfl, rfl⟩
        rcases emits.carries sound with ⟨nextSound, same, grown⟩
        rw [← stream_eq] at here
        have insideHere : address < before.nextAddress := by
          rw [Workbench.nextAddress, stream_eq]
          exact inside
        rw [assembleFrom_of_lt (by omega), bind_eq_ok_iff]
        refine ⟨item.next, before.perform item,
          (assembleItem_eq_ok_iff sound insideHere).mpr ⟨item, here, emits⟩, ?_⟩
        apply tailHolds nextSound
        · rw [← stop_eq, Workbench.nextAddress, Workbench.nextAddress, same.tokens_eq]
        · rw [same.labels_eq]
          exact readable.2
        · rw [grown, same.capacity_eq]
          omega
        · rw [same.tokens_eq, stream_eq]

end Assembly

end WordMachine
