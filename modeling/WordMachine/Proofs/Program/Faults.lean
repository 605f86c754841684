import WordMachine.Proofs.Program.CatalogGrowth
import WordMachine.Proofs.Program.Labels
import WordMachine.Proofs.Program.Outcome

/-!
# The item at which a program stops

If all sources can be read, the walk emits one item after the other, and the
first item that it cannot emit decides how the load fails.  An item that denotes
numbers but does not fit ends it for lack of room.  An item with a number of too
many digits ends it at that number, whether it would fit or not; this fault has
no report.  For a catalog whose operations have instruction words there is no
third way to fail, whatever the tokens are.
-/

namespace WordMachine

namespace Program

/-! ## Numbers that are too long -/

/-- The part is read as the number its token starts with: no mark and no label takes its place. -/
def Part.ReadsNumber (labels : LabelTable) : Part → Prop
  | .mnemonic _ _ _ => False
  | .operand token =>
      Token.shape token = .plain ∧ labels.resolve token = unresolvedAddress
  | .padding => False
  | .bareWord token => ∀ name, Token.shape token ≠ .address name

/-- The part is read as a number that has too many digits. -/
def Part.IsTooLong (labels : LabelTable) (long : LongNumeral) (part : Part) : Prop :=
  part.ReadsNumber labels ∧
    ∃ token sign digits rest,
      part.token? = some token ∧ Numeral.Leads token sign digits rest ∧
        Numeral.maxDigits < digits.length ∧ long = ⟨digits.length⟩

theorem Part.isTooLong_iff
    {labels : LabelTable} {long : LongNumeral} {part : Part} {token : String}
    (spelled : part.token? = some token) :
    part.IsTooLong labels long ↔
      part.ReadsNumber labels ∧ Numeral.read token = .error long := by
  rw [Numeral.read_eq_error_iff, Part.IsTooLong, spelled]
  apply and_congr_right
  intro _
  constructor
  · rintro ⟨_, sign, digits, rest, ⟨⟩, refused⟩
    exact ⟨sign, digits, rest, refused⟩
  · rintro ⟨sign, digits, rest, refused⟩
    exact ⟨token, sign, digits, rest, rfl, refused⟩

theorem ofNumber_eq_error_iff {token : String} {fault : AssemblyFault} :
    Valuation.ofNumber token = .error fault ↔
      ∃ long, Numeral.read token = .error long ∧ fault = .longNumeral long := by
  rw [Valuation.ofNumber]
  cases Numeral.read token with
  | error long => simp [eq_comm]
  | ok reading => simp

theorem ofBareLabel_eq_error_iff {token : String} {fault : AssemblyFault} :
    Valuation.ofBareLabel token = .error fault ↔
      ∃ long, Numeral.read token = .error long ∧ fault = .longNumeral long := by
  rw [Valuation.ofBareLabel]
  cases Numeral.read token with
  | error long => simp [eq_comm]
  | ok reading => simp

theorem map_value_eq_error_iff
    {valuation : Except AssemblyFault Valuation} {fault : AssemblyFault} :
    valuation.map Valuation.value = .error fault ↔ valuation = .error fault := by
  cases valuation with
  | error other => simp [Except.map]
  | ok found => simp [Except.map]

/-- An operand has no value exactly if it is a number that is too long. -/
theorem value_operand_eq_error_iff
    {labels : LabelTable} {token : String} {fault : AssemblyFault} :
    (Part.operand token).value labels = .error fault ↔
      ∃ long, (Part.operand token).IsTooLong labels long ∧ fault = .longNumeral long := by
  have tooLong_iff (long : LongNumeral) := @Part.isTooLong_iff labels long (.operand token) token rfl
  simp only [Part.value, map_value_eq_error_iff, Valuation.ofOperand,
    tooLong_iff, Part.ReadsNumber]
  cases Token.shape token with
  | reference name => simp
  | address name => simp
  | plain =>
      by_cases unresolved : labels.resolve token = unresolvedAddress
      · simp [unresolved, ofNumber_eq_error_iff]
      · simp [unresolved]

/-- So has a bare word. -/
theorem value_bareWord_eq_error_iff
    {labels : LabelTable} {token : String} {fault : AssemblyFault} :
    (Part.bareWord token).value labels = .error fault ↔
      ∃ long, (Part.bareWord token).IsTooLong labels long ∧ fault = .longNumeral long := by
  have unmarked :
      (if labels.contains token then Valuation.ofBareLabel token
        else Valuation.ofNumber token) = .error fault ↔
          ∃ long, Numeral.read token = .error long ∧ fault = .longNumeral long := by
    split
    · exact ofBareLabel_eq_error_iff
    · exact ofNumber_eq_error_iff
  have tooLong_iff (long : LongNumeral) := @Part.isTooLong_iff labels long (.bareWord token) token rfl
  simp only [Part.value, map_value_eq_error_iff, Valuation.ofBareWord, tooLong_iff,
    Part.ReadsNumber]
  cases Token.shape token with
  | reference name => simp [unmarked]
  | address name => simp
  | plain => simp [unmarked]

/-- The first number that is read for the item without having a value is too long. -/
def Item.Exceeds (labels : LabelTable) (long : LongNumeral) (item : Item) : Prop :=
  match item.content with
  | .instruction _ _ operands =>
      ∃ front token back,
        operands = front ++ token :: back ∧
          (∀ other ∈ front, (Part.operand other).IsReadable labels) ∧
            (Part.operand token).IsTooLong labels long
  | .bareWord token => (Part.bareWord token).IsTooLong labels long

theorem exists_isTooLong_of_not_isReadable
    {labels : LabelTable} {part : Part} (unreadable : ¬ part.IsReadable labels)
    (headless : ∀ index operation operands, part ≠ .mnemonic index operation operands) :
    ∃ long, part.IsTooLong labels long := by
  cases valued : part.value labels with
  | ok number => exact (unreadable ⟨number, valued⟩).elim
  | error fault =>
      cases part with
      | mnemonic index operation operands => exact (headless _ _ _ rfl).elim
      | padding => cases valued
      | operand token =>
          rcases value_operand_eq_error_iff.mp valued with ⟨long, tooLong, _⟩
          exact ⟨long, tooLong⟩
      | bareWord token =>
          rcases value_bareWord_eq_error_iff.mp valued with ⟨long, tooLong, _⟩
          exact ⟨long, tooLong⟩

/-- A list with an element that lacks a property has a first such element. -/
theorem exists_first_of_not_forall {α : Type} {property : α → Prop} {list : List α}
    (violated : ¬ ∀ element ∈ list, property element) :
    ∃ front element back,
      list = front ++ element :: back ∧ (∀ other ∈ front, property other) ∧
        ¬ property element := by
  induction list with
  | nil => exact (violated (by simp)).elim
  | cons first rest tailHolds =>
      by_cases holds : property first
      · have others : ¬ ∀ element ∈ rest, property element :=
          fun all => violated (List.forall_mem_cons.mpr ⟨holds, all⟩)
        rcases tailHolds others with ⟨front, element, back, rfl, before, fails⟩
        exact ⟨first :: front, element, back, rfl, List.forall_mem_cons.mpr ⟨holds, before⟩,
          fails⟩
      · exact ⟨[], first, rest, rfl, by simp, holds⟩

/-- If operations have instruction words, only a number that is too long denotes nothing. -/
theorem exists_exceeds_of_mem_parse
    {catalog : Catalog} (encodable : catalog.IsEncodable) {labels : LabelTable}
    {address : Int} {tokens : List String} {item : Item}
    (member : item ∈ parse catalog address tokens)
    (unreadable : ¬ ∀ part ∈ item.parts, part.IsReadable labels) :
    ∃ long, item.Exceeds labels long := by
  rcases item with ⟨place, content⟩
  cases content with
  | bareWord token =>
      simp only [Item.parts, List.forall_mem_singleton] at unreadable
      exact exists_isTooLong_of_not_isReadable unreadable (by simp)
  | instruction index operation operands =>
      have made := fromTokens_of_mem_parse member rfl
      have head : (Part.mnemonic index operation operands).IsReadable labels :=
        ⟨_, value_mnemonic encodable made.listed made.length_le labels⟩
      have violated : ¬ ∀ token ∈ operands, (Part.operand token).IsReadable labels :=
        fun all => unreadable (Assembly.readable_instruction_iff.mpr ⟨head, all⟩)
      rcases exists_first_of_not_forall violated with
        ⟨front, token, back, split, readable, fails⟩
      rcases exists_isTooLong_of_not_isReadable fails (by simp) with ⟨long, tooLong⟩
      exact ⟨long, front, token, back, split, readable, tooLong⟩

end Program

namespace Assembly

open Program Workbench

/-! ## Steps that fail -/

/-- The run ends in the fault. -/
def Fails {α : Type} (fault : AssemblyFault) (run : Assembly α) (before : Workbench) : Prop :=
  ∃ after, run before = .error fault after

theorem Fails.bind
    {α β : Type} {fault : AssemblyFault} {first : Assembly α} {before : Workbench}
    (fails : Fails fault first before) (next : α → Assembly β) :
    Fails fault (first >>= next) before := by
  rcases fails with ⟨after, run⟩
  exact ⟨after, bind_of_error run⟩

theorem Fails.of_ok
    {α β : Type} {fault : AssemblyFault} {first : Assembly α} {next : α → Assembly β}
    {before between : Workbench} {value : α} (run : first before = .ok value between)
    (fails : Fails fault (next value) between) :
    Fails fault (first >>= next) before := by
  rcases fails with ⟨after, failed⟩
  exact ⟨after, (bind_of_ok run).trans failed⟩

theorem settle_fails
    {valuation : Except AssemblyFault Valuation} {fault : AssemblyFault}
    (failed : valuation = .error fault) (address : Int) (before : Workbench) :
    Fails fault (settle valuation address) before :=
  ⟨before, by simp only [settle, failed]⟩

theorem assembleOperand_fails
    {token : String} {fault : AssemblyFault} {before : Workbench}
    (countable : before.image.HasCountableLines)
    (failed : (Part.operand token).value before.image.labels = .error fault) (address : Int) :
    Fails fault (assembleOperand token address) before := by
  have settled := settle_fails (map_value_eq_error_iff.mp failed) address before
  rcases settled.bind
      (fun value => pure (operandKind before.image.labels token, value)) with ⟨after, run⟩
  exact ⟨after, (assembleOperand_eq_settle countable token address).trans run⟩

theorem slice?_succ_eq_some_iff
    {stream : TokenStream} {address : Int} {count : Nat} {token : String} {rest : List String} :
    stream.slice? address (count + 1) = some (token :: rest) ↔
      stream.get? address = some token ∧ stream.slice? (address + 1) count = some rest := by
  rw [TokenStream.slice?]
  cases stream.get? address with
  | none => simp
  | some found =>
      cases stream.slice? (address + 1) count with
      | none => simp
      | some others => simp

/-- Operands are read in order up to the first that has no value. -/
theorem assembleOperands_fails
    {front back : List String} {token : String} {address : Int} {fault : AssemblyFault}
    {before : Workbench} (countable : before.image.HasCountableLines)
    (slice : before.tokens.slice? address (front ++ token :: back).length =
      some (front ++ token :: back))
    (readable : ∀ other ∈ front, (Part.operand other).IsReadable before.image.labels)
    (failed : (Part.operand token).value before.image.labels = .error fault) :
    Fails fault (assembleOperands address (front ++ token :: back).length) before := by
  induction front generalizing address before with
  | nil =>
      rcases slice?_succ_eq_some_iff.mp slice with ⟨found, _⟩
      apply Fails.of_ok (fetch_eq_ok_iff.mpr ⟨found, rfl⟩)
      exact (assembleOperand_fails countable failed address).bind _
  | cons other rest tailHolds =>
      rw [List.forall_mem_cons] at readable
      rcases slice?_succ_eq_some_iff.mp slice with ⟨found, others⟩
      have same := sameProgram_remarkAll before
        (remarksOf (Valuation.ofOperand before.image.labels other) address)
      have first :
          assembleOperand other address before =
            .ok (operandKind before.image.labels other,
                (Part.operand other).number before.image.labels)
              (before.remarkAll
                (remarksOf (Valuation.ofOperand before.image.labels other) address)) :=
        (assembleOperand_eq_ok_iff countable).mpr ⟨rfl, Part.value_eq_number readable.1, rfl⟩
      apply Fails.of_ok (fetch_eq_ok_iff.mpr ⟨found, rfl⟩)
      apply Fails.of_ok first
      apply Fails.bind
      apply tailHolds (same.hasCountableLines countable)
      · rw [same.tokens_eq]
        exact others
      · rw [same.labels_eq]
        exact readable.2
      · rw [same.labels_eq]
        exact failed

theorem assembleNumber_fails
    {token : String} {long : LongNumeral} (refused : Numeral.read token = .error long)
    {before : Workbench} (countable : before.image.HasCountableLines) (address : Int) :
    Fails (.longNumeral long) (assembleNumber token address) before := by
  have read (bench : Workbench) : Fails (.longNumeral long) (readNumeral token) bench :=
    ⟨bench, by rw [readNumeral, refused]⟩
  apply Fails.of_ok (show isLabel token before = .ok _ before from rfl)
  split
  · apply Fails.of_ok (warn_of_no_numbers countable (.bareLabel token) rfl address)
    exact (read _).bind _
  · exact (read before).bind _

theorem assembleBareWord_fails
    {token : String} {long : LongNumeral} {before : Workbench}
    (countable : before.image.HasCountableLines)
    (tooLong : (Part.bareWord token).IsTooLong before.image.labels long) (address : Int) :
    Fails (.longNumeral long) (assembleBareWord token address) before := by
  rcases (Part.isTooLong_iff rfl).mp tooLong with ⟨unmarked, refused⟩
  rw [assembleBareWord]
  cases shape : Token.shape token with
  | address name => exact (unmarked name shape).elim
  | reference name => exact assembleNumber_fails refused countable address
  | plain => exact assembleNumber_fails refused countable address

/-- A step of the walk fails at the first number of its item that is too long. -/
theorem assembleItem_fails
    {catalog : Catalog} (encodable : catalog.IsEncodable)
    {address : Int} {item : Item} {long : LongNumeral} {before : Workbench}
    (countable : before.image.HasCountableLines) (inside : address < before.nextAddress)
    (found : itemAt? catalog before.tokens address = some item)
    (exceeds : item.Exceeds before.image.labels long) :
    Fails (.longNumeral long) (assembleItem catalog address) before := by
  rw [itemAt?] at found
  cases fetched : before.tokens.get? address with
  | none =>
      rw [fetched] at found
      cases found
  | some token =>
      apply Fails.of_ok (fetch_eq_ok_iff.mpr ⟨fetched, rfl⟩)
      simp only [fetched] at found
      cases listed : catalog.find? token with
      | none =>
          simp only [listed, Option.some.injEq] at found
          subst found
          exact (assembleBareWord_fails countable exceeds address).bind _
      | some entry =>
          rcases entry with ⟨index, operation⟩
          simp only [listed] at found
          rcases Option.map_eq_some_iff.mp found with ⟨_, slice, rfl⟩
          rcases exceeds with ⟨front, token, back, rfl, readable, tooLong⟩
          have size := length_of_slice? slice
          rw [← size] at slice
          have same := sameProgram_remarkAll before
            (Item.missingRemarks address operation (front ++ token :: back))
          have operands :
              Fails (.longNumeral long)
                (assembleOperands (address + 1) (front ++ token :: back).length)
                (before.remarkAll
                  (Item.missingRemarks address operation (front ++ token :: back))) := by
            apply assembleOperands_fails (same.hasCountableLines countable)
            · rw [same.tokens_eq]
              exact slice
            · rw [same.labels_eq]
              exact readable
            · rw [same.labels_eq]
              exact value_operand_eq_error_iff.mpr ⟨long, tooLong, rfl⟩
          have writable := encodable.isWritable_arity listed
          rcases operands.bind _ with ⟨after, failed⟩
          exact ⟨after,
            (assembleInstruction_eq_complete countable size.symm inside
              fun _ => writable).trans failed⟩

/-! ## The walk -/

/-- Behind items that are emitted the walk goes on at the next one. -/
theorem assembleFrom_of_emitted
    {catalog : Catalog} {address stop : Int} {earlier rest : List Item} {before : Workbench}
    (sound : before.Sound) (stop_eq : before.nextAddress = stop)
    (walk : Walk catalog before.tokens address (earlier ++ rest))
    (readable : IsReadable before.image.labels earlier)
    (room : before.image.length + (earlier.flatMap Item.parts).length ≤ before.image.capacity) :
    ∃ reached,
      Walk catalog before.tokens reached rest ∧
        assembleFrom catalog stop address before =
          assembleFrom catalog stop reached (earlier.foldl perform before) := by
  induction earlier generalizing address before with
  | nil => exact ⟨address, walk, rfl⟩
  | cons item others tailHolds =>
      rw [IsReadable, List.forall_mem_cons] at readable
      rw [List.flatMap_cons, List.length_append] at room
      cases walk with
      | step inside here tail =>
          have emits : Emits before item item.next (before.perform item) :=
            ⟨readable.1, by omega, rfl, rfl⟩
          rcases emits.carries sound with ⟨nextSound, same, grown⟩
          have step := (assembleItem_eq_ok_iff sound inside).mpr ⟨item, here, emits⟩
          have further :
              ∃ reached,
                Walk catalog (before.perform item).tokens reached rest ∧
                  assembleFrom catalog stop item.next (before.perform item) =
                    assembleFrom catalog stop reached
                      (others.foldl perform (before.perform item)) := by
            apply tailHolds nextSound
            · rw [← stop_eq, Workbench.nextAddress, Workbench.nextAddress, same.tokens_eq]
            · rw [same.tokens_eq]
              exact tail
            · rw [same.labels_eq]
              exact readable.2
            · rw [grown, same.capacity_eq]
              omega
          rcases further with ⟨reached, walked, goesOn⟩
          rw [same.tokens_eq] at walked
          refine ⟨reached, walked, ?_⟩
          rw [assembleFrom_of_lt (stop_eq ▸ inside), bind_of_ok step]
          exact goesOn

end Assembly

namespace Program

open Workbench

/-! ## The item that decides -/

/-- Every item before this one is emitted, in words from `start` on. -/
structure Reaches (labels : LabelTable) (start capacity : Int) (items earlier : List Item)
    (item : Item) : Prop where
  split : ∃ later, items = earlier ++ item :: later
  readable : IsReadable labels earlier
  room : start + (earlier.flatMap Item.parts).length ≤ capacity

/-- The item denotes numbers but its words do not fit behind those of the items before it. -/
structure Overfills (labels : LabelTable) (start capacity : Int) (earlier : List Item)
    (item : Item) : Prop where
  readable : ∀ part ∈ item.parts, part.IsReadable labels
  excess : capacity < start + (earlier.flatMap Item.parts).length + item.parts.length

/-- All items are emitted, or there is a first one that is not. -/
theorem emitted_or_reaches
    (labels : LabelTable) {start capacity : Int} (inside : start ≤ capacity) (items : List Item) :
    (IsReadable labels items ∧ start + (items.flatMap Item.parts).length ≤ capacity) ∨
      ∃ earlier item,
        Reaches labels start capacity items earlier item ∧
          (Overfills labels start capacity earlier item ∨
            ¬ ∀ part ∈ item.parts, part.IsReadable labels) := by
  induction items generalizing start with
  | nil => exact .inl ⟨by simp [IsReadable], by simpa using inside⟩
  | cons item rest tailHolds =>
      -- An item that denotes no number is not emitted, even if it would not fit either.
      have first : Reaches labels start capacity (item :: rest) [] item :=
        ⟨⟨rest, rfl⟩, by simp [IsReadable], by simpa using inside⟩
      by_cases readable : ∀ part ∈ item.parts, part.IsReadable labels
      case neg => exact .inr ⟨[], item, first, .inr readable⟩
      case pos =>
        by_cases room : start + item.parts.length ≤ capacity
        case neg =>
          refine .inr ⟨[], item, first, .inl ⟨readable, ?_⟩⟩
          simpa using room
        case pos =>
          have total (others : List Item) :
              start + (((item :: others).flatMap Item.parts).length : Int) =
                start + item.parts.length + (others.flatMap Item.parts).length := by
            rw [List.flatMap_cons, List.length_append]
            omega
          rcases tailHolds room with ⟨restReadable, restRoom⟩ | ⟨earlier, last, reaches, stops⟩
          · left
            rw [total]
            exact ⟨List.forall_mem_cons.mpr ⟨readable, restReadable⟩, restRoom⟩
          · right
            rcases reaches.split with ⟨later, rfl⟩
            refine ⟨item :: earlier, last, ⟨⟨later, rfl⟩, ?_, ?_⟩, ?_⟩
            · exact List.forall_mem_cons.mpr ⟨readable, reaches.readable⟩
            · rw [total]
              exact reaches.room
            · refine stops.imp_left fun overfills => ⟨overfills.readable, ?_⟩
              rw [total]
              exact overfills.excess

section

variable {catalog : Catalog} {capacity : Int} {assembler : Assembler}
  (created : Assembler.create catalog capacity = .ok assembler)
  {reader : SourceReader} {filenames : List String}
  (texts : ∀ filename ∈ filenames, ∃ text, readText reader filename = .ok text)
  {items earlier : List Item} {item : Item}
  (walk : Walk catalog (surveyed capacity reader filenames).tokens codeStart items)
  (reaches : Reaches (surveyed capacity reader filenames).image.labels codeStart capacity items
    earlier item)

include created texts walk reaches

/-- The step that fails at the first item which is not emitted is the fault of the load. -/
theorem load_eq_error_of_reaches
    {fault : AssemblyFault}
    (fails : ∀ (address : Int) (bench : Workbench), bench.Sound →
      SameProgram (surveyed capacity reader filenames) bench →
        bench.image.length = codeStart + (earlier.flatMap Item.parts).length →
          address < bench.nextAddress → itemAt? catalog bench.tokens address = some item →
            Assembly.Fails fault (Assembly.assembleItem catalog address) bench) :
    (assembler.load reader filenames).1 = .error fault := by
  rcases create_eq_ok_iff.mp created with ⟨large, small, rfl⟩
  rcases reaches.split with ⟨later, rfl⟩
  have read : Assembly.readSources reader filenames (Workbench.initial capacity) =
      .ok () (surveyed capacity reader filenames) :=
    Assembly.readSources_eq_ok_iff.mpr ⟨texts, rfl⟩
  have base : (surveyed capacity reader filenames).tokens.base = codeStart := by
    rw [tokens_surveyed]
  have sound := sound_surveyed large small reader filenames
  have room :
      (surveyed capacity reader filenames).image.length +
          (earlier.flatMap Item.parts).length ≤
        (surveyed capacity reader filenames).image.capacity := by
    rw [length_surveyed, capacity_surveyed]
    exact reaches.room
  have same := sameProgram_performAll (surveyed capacity reader filenames) earlier
  rcases Assembly.assembleFrom_of_emitted sound rfl walk reaches.readable room with
    ⟨reached, ahead, goesOn⟩
  have walked :
      Assembly.Fails fault
        (Assembly.assembleFrom catalog (surveyed capacity reader filenames).nextAddress codeStart)
        (surveyed capacity reader filenames) := by
    cases ahead with
    | step inside here tail =>
        rw [← same.tokens_eq] at inside here
        have grown := length_performAll (surveyed capacity reader filenames) earlier
        rw [length_surveyed] at grown
        rcases fails reached _ (sound.performAll room) same grown inside here with
          ⟨after, failed⟩
        have beforeStop : reached < (surveyed capacity reader filenames).nextAddress := by
          rw [same.tokens_eq] at inside
          exact inside
        refine ⟨after, ?_⟩
        rw [goesOn, Assembly.assembleFrom_of_lt beforeStop, Assembly.bind_of_error failed]
  rcases walked.bind (fun _ => Assembly.checkEntry) with ⟨after, failed⟩
  have run :
      Assembly.run catalog reader filenames (Workbench.initial capacity) =
        .error fault after := by
    rw [Assembly.run, Assembly.bind_of_ok read, Assembly.assemble, base]
    exact failed
  simp only [Assembler.load, run]

theorem load_eq_longNumeral_of_reaches
    (encodable : catalog.IsEncodable) {long : LongNumeral}
    (exceeds : item.Exceeds (surveyed capacity reader filenames).image.labels long) :
    (assembler.load reader filenames).1 = .error (.longNumeral long) := by
  apply load_eq_error_of_reaches created texts walk reaches
  intro address bench sound same _ inside found
  rw [← same.labels_eq] at exceeds
  exact Assembly.assembleItem_fails encodable sound.countable inside found exceeds

theorem load_eq_capacityExceeded_of_reaches
    (overfills : Overfills (surveyed capacity reader filenames).image.labels codeStart capacity
      earlier item) :
    (assembler.load reader filenames).1 =
      .error (.capacityExceeded capacity
        ((surveyed capacity reader filenames).image.placeAt capacity)) := by
  have overflow :
      Assembly.overflow (surveyed capacity reader filenames).image =
        .capacityExceeded capacity
          ((surveyed capacity reader filenames).image.placeAt capacity) := by
    rw [Assembly.overflow, capacity_surveyed]
  rw [← overflow]
  apply load_eq_error_of_reaches created texts walk reaches
  intro address bench sound same grown inside found
  rw [← Assembly.overflow_congr same]
  apply Assembly.assembleItem_overflows sound inside found
  · rw [same.labels_eq]
    exact overfills.readable
  · rw [same.capacity_eq, capacity_surveyed, grown]
    exact overfills.excess

end

/-! ## All faults of a load -/

/-- The walk reaches an item that denotes numbers but does not fit. -/
def LacksRoom (catalog : Catalog) (capacity : Int) (reader : SourceReader)
    (filenames : List String) : Prop :=
  ∃ earlier item,
    Reaches (surveyed capacity reader filenames).image.labels codeStart capacity
        (parse catalog codeStart (retained (sourceTokens reader filenames))) earlier item ∧
      Overfills (surveyed capacity reader filenames).image.labels codeStart capacity earlier item

/-- The walk reaches an item with a number that is too long. -/
def MeetsLongNumber (catalog : Catalog) (capacity : Int) (reader : SourceReader)
    (filenames : List String) (long : LongNumeral) : Prop :=
  ∃ earlier item,
    Reaches (surveyed capacity reader filenames).image.labels codeStart capacity
        (parse catalog codeStart (retained (sourceTokens reader filenames))) earlier item ∧
      item.Exceeds (surveyed capacity reader filenames).image.labels long

section

variable {catalog : Catalog} (encodable : catalog.IsEncodable)
  {capacity : Int} {assembler : Assembler}
  (created : Assembler.create catalog capacity = .ok assembler)
  {reader : SourceReader} {filenames : List String}

include encodable created

theorem load_of_meetsLongNumber
    (texts : ∀ filename ∈ filenames, ∃ text, readText reader filename = .ok text)
    {long : LongNumeral} (meets : MeetsLongNumber catalog capacity reader filenames long) :
    (assembler.load reader filenames).1 = .error (.longNumeral long) := by
  rcases meets with ⟨earlier, item, reaches, exceeds⟩
  have walk := walk_surveyed encodable.hasArities capacity reader filenames
  exact load_eq_longNumeral_of_reaches created texts walk reaches encodable exceeds

/-- Readable sources give an image unless they lack room or hold a number that is too long. -/
theorem load_of_texts
    (texts : ∀ filename ∈ filenames, ∃ text, readText reader filename = .ok text) :
    (∃ image, (assembler.load reader filenames).1 = .ok image) ∨
      LacksRoom catalog capacity reader filenames ∧
          (assembler.load reader filenames).1 =
            .error (.capacityExceeded capacity
              ((surveyed capacity reader filenames).image.placeAt capacity)) ∨
        ∃ long,
          MeetsLongNumber catalog capacity reader filenames long ∧
            (assembler.load reader filenames).1 = .error (.longNumeral long) := by
  rcases create_eq_ok_iff.mp created with ⟨large, small, _⟩
  have walk := walk_surveyed encodable.hasArities capacity reader filenames
  rcases emitted_or_reaches (surveyed capacity reader filenames).image.labels
      (Int.le_of_lt large)
      (parse catalog codeStart (retained (sourceTokens reader filenames))) with
    ⟨readable, room⟩ | ⟨earlier, item, reaches, overfills | unreadable⟩
  · left
    exact ⟨_, (load_eq_ok_iff created).mpr ⟨_, large, small, texts, walk, readable, room, rfl⟩⟩
  · right
    left
    exact ⟨⟨earlier, item, reaches, overfills⟩,
      load_eq_capacityExceeded_of_reaches created texts walk reaches overfills⟩
  · right
    right
    rcases reaches.split with ⟨later, split⟩
    have member : item ∈ parse catalog codeStart (retained (sourceTokens reader filenames)) := by
      rw [split]
      exact List.mem_append_right _ List.mem_cons_self
    rcases exists_exceeds_of_mem_parse encodable member unreadable with ⟨long, exceeds⟩
    have meets : MeetsLongNumber catalog capacity reader filenames long :=
      ⟨earlier, item, reaches, exceeds⟩
    exact ⟨long, meets, load_of_meetsLongNumber encodable created texts meets⟩

/-- The ways in which a load can end, whatever its files and its tokens are. -/
theorem load_cases (plain : ∀ filename ∈ filenames, holdsNul filename = false) :
    (∃ image, (assembler.load reader filenames).1 = .ok image) ∨
      (∃ filename ∈ filenames, ∃ cause,
        (assembler.load reader filenames).1 = .error (.unreadableSource filename cause)) ∨
        (∃ place,
          (assembler.load reader filenames).1 = .error (.capacityExceeded capacity place)) ∨
          ∃ long,
            (∀ filename ∈ filenames, IsSource reader filename) ∧
              MeetsLongNumber catalog capacity reader filenames long ∧
                (assembler.load reader filenames).1 = .error (.longNumeral long) := by
  by_cases sources : ∀ filename ∈ filenames, IsSource reader filename
  case pos =>
    have texts : ∀ filename ∈ filenames, ∃ text, readText reader filename = .ok text :=
      fun filename member => readText_of_isSource (plain filename member) (sources filename member)
    rcases load_of_texts encodable created texts with
      loaded | ⟨_, exceeded⟩ | ⟨long, meets, stopped⟩
    · exact .inl loaded
    · exact .inr (.inr (.inl ⟨_, exceeded⟩))
    · exact .inr (.inr (.inr ⟨long, sources, meets, stopped⟩))
  case neg =>
    rcases readSources_of_not_isSource plain sources (Workbench.initial capacity) with
      ⟨earlier, filename, later, cause, after, split, _, _, failed⟩
    refine .inr (.inl ⟨filename, ?_, cause, ?_⟩)
    · rw [split]
      exact List.mem_append_right _ List.mem_cons_self
    · rw [(create_eq_ok_iff.mp created).2.2]
      exact load_of_readSources_error failed

end

/-- Which faults a load can end in, and exactly when it ends in the one that has no report. -/
structure FaultsExplained (catalog : Catalog) (capacity : Int) (reader : SourceReader)
    (filenames : List String) (outcome : Except AssemblyFault Image) : Prop where
  fault_cases : ∀ fault, outcome = .error fault →
    (∃ filename ∈ filenames, ∃ cause, fault = .unreadableSource filename cause) ∨
      (∃ place, fault = .capacityExceeded capacity place) ∨
        ∃ long, fault = .longNumeral long
  longNumeral_iff : ∀ long, outcome = .error (.longNumeral long) ↔
    (∀ filename ∈ filenames, IsSource reader filename) ∧
      MeetsLongNumber catalog capacity reader filenames long

/--
A load fails with a report of a file or of a lack of room, whatever its tokens
are, except that it fails without a report at a number of too many digits.
-/
theorem faultsExplained_of_load
    {catalog : Catalog} (encodable : catalog.IsEncodable)
    {capacity : Int} {assembler : Assembler}
    (created : Assembler.create catalog capacity = .ok assembler)
    {reader : SourceReader} {filenames : List String}
    (plain : ∀ filename ∈ filenames, holdsNul filename = false) :
    FaultsExplained catalog capacity reader filenames (assembler.load reader filenames).1 := by
  have ways := @load_cases catalog encodable capacity assembler created reader filenames plain
  constructor
  case fault_cases =>
    intro fault failed
    rw [failed] at ways
    rcases ways with ⟨image, ⟨⟩⟩ | ⟨filename, member, cause, ⟨⟩⟩ | ⟨place, ⟨⟩⟩ |
      ⟨long, _, _, ⟨⟩⟩
    · exact .inl ⟨filename, member, cause, rfl⟩
    · exact .inr (.inl ⟨place, rfl⟩)
    · exact .inr (.inr ⟨long, rfl⟩)
  case longNumeral_iff =>
    intro long
    constructor
    · intro failed
      rw [failed] at ways
      rcases ways with ⟨image, ⟨⟩⟩ | ⟨filename, member, cause, ⟨⟩⟩ | ⟨place, ⟨⟩⟩ |
        ⟨_, sources, meets, ⟨⟩⟩
      exact ⟨sources, meets⟩
    · rintro ⟨sources, meets⟩
      apply load_of_meetsLongNumber encodable created _ meets
      intro filename member
      exact readText_of_isSource (plain filename member) (sources filename member)

/-! ## A number without a report -/

/-- A number that consists of ones. -/
def ones (count : Nat) : String :=
  String.ofList (List.replicate count '1')

section Ones

variable {count : Nat}

theorem eq_one_of_mem_ones {character : Char} (member : character ∈ (ones count).toList) :
    character = '1' := by
  rw [ones, String.toList_ofList] at member
  exact List.eq_of_mem_replicate member

theorem head?_ones (positive : 0 < count) : (ones count).toList.head? = some '1' := by
  rw [ones, String.toList_ofList, List.head?_replicate, if_neg (by omega)]

theorem leads_ones (positive : 0 < count) :
    Numeral.Leads (ones count) [] (List.replicate count '1') [] where
  token_eq := by simp [ones]
  isSign := .inl rfl
  digits_ne_nil := by
    simp only [ne_eq, List.replicate_eq_nil_iff]
    omega
  isDigit_of_mem := by
    intro digit member
    rw [List.eq_of_mem_replicate member]
    decide
  stops := by simp

theorem isWord_ones (positive : 0 < count) : Text.IsWord (ones count) where
  ne_empty := by
    intro empty
    have head := head?_ones positive
    rw [empty] at head
    cases head
  isUnbroken := by
    intro character member
    rw [eq_one_of_mem_ones member]
    decide

theorem role_ones (positive : 0 < count) : Token.role (ones count) = .retained := by
  have head := head?_ones positive
  rw [Token.role, if_neg (by rw [head]; decide), if_neg]
  intro entry
  rw [entry] at head
  exact absurd head (by decide)

theorem find?_ones (positive : 0 < count) : Catalog.standard.find? (ones count) = none := by
  rw [Catalog.find?_eq_none_iff]
  have differs : ∀ operation ∈ Catalog.standard, operation.name.toList.head? ≠ some '1' := by
    decide
  intro operation member named
  apply differs operation member
  rw [named]
  exact head?_ones positive

theorem shape_ones (positive : 0 < count) (name : String) :
    Token.shape (ones count) ≠ .address name := by
  have head := head?_ones positive
  rw [Token.shape]
  split
  case h_1 => simp
  case h_2 marked =>
    rw [marked, List.head?_cons, Option.some.injEq] at head
    exact absurd head (by decide)
  case h_3 => simp

theorem opened_ones (small : count ≤ maxFileSize) :
    singleSource "a" (ones count) "a" = .ok (Text.Utf8.encode (ones count)) := by
  apply singleSource_known
  rw [Text.Utf8.length_encode_of_ascii, ones, String.toList_ofList, List.length_replicate]
  · exact small
  · intro character member
    rw [eq_one_of_mem_ones member]
    decide

/-- A file that consists of a number with too many ones stops the walk at once. -/
theorem meetsLongNumber_ones
    (many : Numeral.maxDigits < count) (small : count ≤ maxFileSize) {capacity : Int}
    (inside : codeStart ≤ capacity) :
    MeetsLongNumber Catalog.standard capacity (singleSource "a" (ones count)) ["a"] ⟨count⟩ := by
  have positive : 0 < count := Nat.zero_lt_of_lt many
  have tokens : sourceTokens (singleSource "a" (ones count)) ["a"] = [ones count] := by
    apply sourceTokens_of_isWord (by decide) (opened_ones small) (isWord_ones positive)
    intro comment
    exact absurd (eq_one_of_mem_ones comment) (by decide)
  have items :
      parse Catalog.standard codeStart
          (retained (sourceTokens (singleSource "a" (ones count)) ["a"])) =
        [⟨codeStart, .bareWord (ones count)⟩] := by
    rw [tokens, retained, List.filter_cons_of_pos (by simp [role_ones positive]),
      List.filter_nil, parse, find?_ones positive]
    simp [parse]
  rw [MeetsLongNumber, items]
  refine ⟨[], _, ⟨⟨[], rfl⟩, by simp [IsReadable], by simpa using inside⟩, ?_⟩
  refine ⟨shape_ones positive, _, _, _, _, rfl, leads_ones positive, ?_, ?_⟩
  · rwa [List.length_replicate]
  · rw [List.length_replicate]

end Ones

/-- The load stops at a number that has one digit more than is read. -/
theorem faultsExplained_ones :
    Catalog.standard.IsEncodable ∧
      (∀ filename ∈ ["a"], holdsNul filename = false) ∧
        MeetsLongNumber Catalog.standard maxCapacity (singleSource "a" (ones 4301)) ["a"]
            ⟨4301⟩ ∧
          ∃ assembler,
            Assembler.create Catalog.standard maxCapacity = .ok assembler ∧
              FaultsExplained Catalog.standard maxCapacity (singleSource "a" (ones 4301)) ["a"]
                (assembler.load (singleSource "a" (ones 4301)) ["a"]).1 := by
  have plain : ∀ filename ∈ ["a"], holdsNul filename = false := by decide
  have created :
      Assembler.create Catalog.standard maxCapacity =
        .ok ⟨Catalog.standard, maxCapacity, none⟩ :=
    rfl
  exact ⟨Catalog.isEncodable_standard, plain, meetsLongNumber_ones (by decide) (by decide) (by decide),
    _,
    created, faultsExplained_of_load Catalog.isEncodable_standard created plain⟩

/-- The fault of that load is neither a file that cannot be read nor a lack of room. -/
theorem load_ones_has_no_report :
    ¬ ∀ (capacity : Int) (assembler : Assembler) (reader : SourceReader) (filenames : List String),
      Assembler.create Catalog.standard capacity = .ok assembler →
        (∀ filename ∈ filenames, holdsNul filename = false) →
          (∃ image, (assembler.load reader filenames).1 = .ok image) ∨
            ∃ fault report,
              (assembler.load reader filenames).1 = .error fault ∧
                fault.report? = some report := by
  intro documented
  have plain : ∀ filename ∈ ["a"], holdsNul filename = false := by decide
  have created :
      Assembler.create Catalog.standard maxCapacity =
        .ok ⟨Catalog.standard, maxCapacity, none⟩ :=
    rfl
  have texts : ∀ filename ∈ ["a"],
      ∃ text, readText (singleSource "a" (ones 4301)) filename = .ok text := by
    rw [List.forall_mem_singleton]
    exact ⟨_, readText_eq_ok (by decide) (opened_ones (by decide))⟩
  have stopped := load_of_meetsLongNumber Catalog.isEncodable_standard created texts
    (meetsLongNumber_ones (by decide) (by decide) (by decide))
  rcases documented _ _ (singleSource "a" (ones 4301)) ["a"] created plain with
    ⟨image, loaded⟩ | ⟨fault, report, failed, reported⟩
  · rw [loaded] at stopped
    cases stopped
  · rw [stopped] at failed
    cases failed
    cases reported

end Program

end WordMachine
