import WordMachine.Proofs.Program.Load

/-!
# Programs that do not fit

The second pass tests for room at every word.  If all parts of a program denote
numbers, then this test is the only way for the pass to fail, and it fails
whenever the words of all items together exceed the capacity: the words before
that one have filled the image exactly, so the fault names the capacity itself
as the address that has no word.
-/

namespace WordMachine

namespace Assembly

open Program Workbench

/-- The fault of a program that goes on behind the last word of its image. -/
def overflow (image : Image) : AssemblyFault :=
  .capacityExceeded image.capacity (image.placeAt image.capacity)

theorem overflow_congr {before after : Workbench} (same : SameProgram before after) :
    overflow after.image = overflow before.image := by
  simp only [overflow, Image.placeAt, same.capacity_eq, same.lines_eq]

theorem bind_of_ok
    {α β : Type} {first : Assembly α} {next : α → Assembly β} {before between : Workbench}
    {value : α} (run : first before = .ok value between) :
    (first >>= next) before = next value between := by
  simp only [bind, EStateM.bind, run]

theorem bind_of_error
    {α β : Type} {first : Assembly α} {next : α → Assembly β} {before between : Workbench}
    {fault : AssemblyFault} (run : first before = .error fault between) :
    (first >>= next) before = .error fault between := by
  simp only [bind, EStateM.bind, run]

/-- The run ends in the overflow of the bench it started from. -/
def Overflows {α : Type} (run : Assembly α) (before : Workbench) : Prop :=
  ∃ after, run before = .error (overflow before.image) after

theorem Overflows.bind
    {α β : Type} {first : Assembly α} {before : Workbench} (overflows : Overflows first before)
    (next : α → Assembly β) :
    Overflows (first >>= next) before := by
  rcases overflows with ⟨after, run⟩
  exact ⟨after, bind_of_error run⟩

/-- What overflows behind a step on the same program overflows from the start. -/
theorem Overflows.of_ok
    {α β : Type} {first : Assembly α} {next : α → Assembly β} {before between : Workbench}
    {value : α} (run : first before = .ok value between) (same : SameProgram before between)
    (overflows : Overflows (next value) between) :
    Overflows (first >>= next) before := by
  rcases overflows with ⟨after, failed⟩
  rw [overflow_congr same] at failed
  exact ⟨after, (bind_of_ok run).trans failed⟩

/-! ## Words -/

theorem emit_overflows
    {before : Workbench} (sound : before.Sound) (word : Int)
    (full : before.image.capacity ≤ before.image.length) :
    Overflows (emit word) before := by
  have exact : before.image.length = before.image.capacity :=
    Int.le_antisymm sound.length_le_capacity full
  have start := sound.codeStart_le_length
  have small := sound.capacity_le
  rw [codeStart] at start
  rw [maxCapacity] at small
  have writable : Numeral.check before.image.capacity = .ok () := by
    apply Numeral.check_eq_ok_iff.mpr
    apply Numeral.isWritable_of_natAbs_lt
    omega
  refine ⟨before, ?_⟩
  rw [emit, if_pos full, roomFault, Image.locate_eq_placeAt sound.countable, writable, overflow,
    exact]

theorem emitAll_overflows
    {words : List Int} {before : Workbench} (sound : before.Sound)
    (excess : before.image.capacity < before.image.length + words.length) :
    Overflows (emitAll words) before := by
  induction words generalizing before with
  | nil =>
      have bound := sound.length_le_capacity
      rw [List.length_nil] at excess
      omega
  | cons word rest tailHolds =>
      rw [emitAll]
      by_cases room : before.image.length < before.image.capacity
      · have emitted : emit word before = .ok () (before.push word) :=
          (emit_eq_ok_iff sound.toSound).mpr ⟨room, rfl⟩
        apply Overflows.of_ok emitted (sameProgram_push before word)
        apply tailHolds (sound.push room word)
        rw [List.length_cons] at excess
        simp only [push]
        omega
      · exact (emit_overflows sound word (by omega)).bind _

theorem emitInstruction_overflows
    {index : Nat} {operands : List (OperandKind × Int)} {word : Int} {before : Workbench}
    (sound : before.Sound)
    (encoded : Instruction.encode index (operands.map Prod.fst) = .ok word)
    (excess : before.image.capacity < before.image.length + (operands.length + 1 : Nat)) :
    Overflows (emitInstruction index operands) before := by
  have encodes : instructionWord index (operands.map Prod.fst) before = .ok word before :=
    instructionWord_eq_ok_iff.mpr ⟨encoded, rfl⟩
  apply Overflows.of_ok encodes (SameProgram.refl before)
  have words : Overflows (emitAll (word :: operands.map Prod.snd)) before := by
    apply emitAll_overflows sound
    simpa using excess
  exact words

/-! ## Items -/

theorem completeInstruction_overflows
    {index : Nat} {operation : Operation} {address : Int} {operands : List String}
    {before : Workbench} (sound : before.Sound)
    (slice : before.tokens.slice? (address + 1) operands.length = some operands)
    (readable : ∀ part ∈ (Item.mk address (.instruction index operation operands)).parts,
      part.IsReadable before.image.labels)
    (excess : before.image.capacity <
      before.image.length +
        (Item.mk address (.instruction index operation operands)).parts.length) :
    Overflows (completeInstruction index operation address operands.length) before := by
  rcases readable_instruction_iff.mp readable with ⟨head, operandsReadable⟩
  have gathered :=
    (assembleOperands_eq_ok_iff sound.countable).mpr ⟨operands, slice, operandsReadable, rfl, rfl⟩
  have same :=
    sameProgram_remarkAll before (operandRemarks before.image.labels (address + 1) operands)
  have completed :=
    completed_operands before.image.labels operands (operation.arity.toNat - operands.length)
  apply Overflows.of_ok gathered same
  apply Overflows.bind
  apply emitInstruction_overflows (sound.remarkAll _)
  · rw [completed.1]
    exact mnemonic_value_eq_ok_iff.mp (Part.value_eq_number head)
  · rw [length_remarkAll, same.capacity_eq]
    simpa [Item.parts, Item.lacking] using excess

theorem assembleInstruction_overflows
    {index : Nat} {operation : Operation} {address : Int} {operands : List String}
    {before : Workbench} (sound : before.Sound) (inside : address < before.nextAddress)
    (slice : before.tokens.slice? (address + 1)
      (min operation.arity (before.nextAddress - address - 1)).toNat = some operands)
    (readable : ∀ part ∈ (Item.mk address (.instruction index operation operands)).parts,
      part.IsReadable before.image.labels)
    (excess : before.image.capacity <
      before.image.length +
        (Item.mk address (.instruction index operation operands)).parts.length) :
    Overflows (assembleInstruction index operation address) before := by
  have size := length_of_slice? slice
  rw [← size] at slice
  have same := sameProgram_remarkAll before (Item.missingRemarks address operation operands)
  have complete :
      Overflows (completeInstruction index operation address operands.length)
        (before.remarkAll (Item.missingRemarks address operation operands)) := by
    apply completeInstruction_overflows (sound.remarkAll _)
    · rw [same.tokens_eq]
      exact slice
    · rw [same.labels_eq]
      exact readable
    · rw [same.capacity_eq, length_remarkAll]
      exact excess
  rcases complete with ⟨after, failed⟩
  rw [overflow_congr same] at failed
  have writable := writable_of_readable_mnemonic (readable_instruction_iff.mp readable).1
  exact ⟨after,
    (assembleInstruction_eq_complete sound.countable size.symm inside writable).trans failed⟩

theorem assembleBareWord_overflows
    {token : String} {address : Int} {before : Workbench} (sound : before.Sound)
    (readable : (Part.bareWord token).IsReadable before.image.labels)
    (full : before.image.capacity ≤ before.image.length) :
    Overflows
      (do
        let word ← assembleBareWord token address
        emit word
        return address + 1 : Assembly Int) before := by
  have same := sameProgram_remarkAll before
    (remarksOf (Valuation.ofBareWord before.image.labels token) address)
  have valued :
      assembleBareWord token address before =
        .ok ((Part.bareWord token).number before.image.labels)
          (before.remarkAll
            (remarksOf (Valuation.ofBareWord before.image.labels token) address)) :=
    (assembleBareWord_eq_ok_iff sound.countable).mpr ⟨Part.value_eq_number readable, rfl⟩
  apply Overflows.of_ok valued same
  apply Overflows.bind
  apply emit_overflows (sound.remarkAll _)
  rw [same.capacity_eq, length_remarkAll]
  exact full

/-- A step of the walk overflows if the item at its address denotes numbers but does not fit. -/
theorem assembleItem_overflows
    {catalog : Catalog} {address : Int} {item : Item} {before : Workbench}
    (sound : before.Sound) (inside : address < before.nextAddress)
    (found : itemAt? catalog before.tokens address = some item)
    (readable : ∀ part ∈ item.parts, part.IsReadable before.image.labels)
    (excess : before.image.capacity < before.image.length + item.parts.length) :
    Overflows (assembleItem catalog address) before := by
  rw [itemAt?] at found
  cases fetched : before.tokens.get? address with
  | none =>
      rw [fetched] at found
      cases found
  | some token =>
      have fetches : fetch address before = .ok token before :=
        fetch_eq_ok_iff.mpr ⟨fetched, rfl⟩
      apply Overflows.of_ok fetches (SameProgram.refl before)
      simp only [fetched] at found
      cases listed : catalog.find? token with
      | none =>
          simp only [listed, Option.some.injEq] at found
          subst found
          simp only [Item.parts, List.forall_mem_singleton, List.length_singleton] at readable excess
          exact assembleBareWord_overflows sound readable (by omega)
      | some entry =>
          rcases entry with ⟨index, operation⟩
          simp only [listed] at found
          rcases Option.map_eq_some_iff.mp found with ⟨operands, slice, rfl⟩
          exact assembleInstruction_overflows sound inside slice readable excess

/-! ## The walk -/

/--
A walk through items that denote numbers overflows if they do not fit.  The
induction follows the reading: either the first item does not fit, or it is
performed and the others do not fit behind it.
-/
theorem assembleFrom_overflows
    {catalog : Catalog} {address : Int} {items : List Item} {before : Workbench}
    (sound : before.Sound) (walk : Walk catalog before.tokens address items)
    (readable : IsReadable before.image.labels items)
    (excess : before.image.capacity <
      before.image.length + (items.flatMap Item.parts).length) :
    Overflows (assembleFrom catalog before.nextAddress address) before := by
  generalize stream_eq : before.tokens = stream at walk
  generalize stop_eq : before.nextAddress = stop
  induction walk generalizing before with
  | done atEnd =>
      have bound := sound.length_le_capacity
      simp only [List.flatMap_nil, List.length_nil] at excess
      omega
  | @step address item rest inside here tail tailHolds =>
      rw [IsReadable, List.forall_mem_cons] at readable
      rw [← stream_eq] at here inside
      have insideHere : address < before.nextAddress := inside
      have unfolded := @assembleFrom_of_lt catalog stop address before (stop_eq ▸ insideHere)
      rw [Overflows, unfolded]
      by_cases room : before.image.length + item.parts.length ≤ before.image.capacity
      · have emits : Emits before item item.next (before.perform item) :=
          ⟨readable.1, room, rfl, rfl⟩
        rcases emits.carries sound with ⟨nextSound, same, grown⟩
        have step := (assembleItem_eq_ok_iff sound insideHere).mpr ⟨item, here, emits⟩
        refine Overflows.of_ok step same (tailHolds nextSound ?_ ?_ ?_ ?_)
        · rw [same.labels_eq]
          exact readable.2
        · rw [List.flatMap_cons, List.length_append] at excess
          rw [same.capacity_eq, grown]
          omega
        · rw [same.tokens_eq, stream_eq]
        · rw [← stop_eq, Workbench.nextAddress, Workbench.nextAddress, same.tokens_eq]
      · exact (assembleItem_overflows sound insideHere here readable.1 (by omega)).bind _

end Assembly

namespace Program

open Workbench

/--
If all sources can be read and the items of their walk denote numbers but do not
fit, then a load ends in a capacity fault.
-/
theorem load_eq_error_of_excess
    {catalog : Catalog} {capacity : Int} {assembler : Assembler}
    (created : Assembler.create catalog capacity = .ok assembler)
    {reader : SourceReader} {filenames : List String} {items : List Item}
    (sources : ∀ filename ∈ filenames, ∃ text, readText reader filename = .ok text)
    (walk : Walk catalog (surveyed capacity reader filenames).tokens codeStart items)
    (readable : IsReadable (surveyed capacity reader filenames).image.labels items)
    (excess : capacity < codeStart + (items.flatMap Item.parts).length) :
    (assembler.load reader filenames).1 =
      .error (.capacityExceeded capacity
        ((surveyed capacity reader filenames).image.placeAt capacity)) := by
  rcases create_eq_ok_iff.mp created with ⟨large, small, rfl⟩
  have read : Assembly.readSources reader filenames (Workbench.initial capacity) =
      .ok () (surveyed capacity reader filenames) :=
    Assembly.readSources_eq_ok_iff.mpr ⟨sources, rfl⟩
  have base : (surveyed capacity reader filenames).tokens.base = codeStart := by
    rw [tokens_surveyed]
  have walked :
      Assembly.Overflows
        (Assembly.assembleFrom catalog (surveyed capacity reader filenames).nextAddress codeStart)
        (surveyed capacity reader filenames) := by
    apply Assembly.assembleFrom_overflows (sound_surveyed large small reader filenames) walk
      readable
    rw [capacity_surveyed, length_surveyed]
    exact excess
  rcases walked.bind (fun _ => Assembly.checkEntry) with ⟨after, failed⟩
  have run :
      Assembly.run catalog reader filenames (Workbench.initial capacity) =
        .error (Assembly.overflow (surveyed capacity reader filenames).image) after := by
    rw [Assembly.run, Assembly.bind_of_ok read, Assembly.assemble, base]
    exact failed
  simp only [Assembler.load, run, Assembly.overflow, capacity_surveyed]

end Program

end WordMachine
