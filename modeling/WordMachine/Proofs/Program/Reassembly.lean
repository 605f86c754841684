import WordMachine.Proofs.Program.Labels
import WordMachine.Proofs.Program.OperandText

/-!
# Listings that assemble

The listing of a program of instructions is itself such a program.  Its tokens
are cut into the same instructions with their operands spelled anew, and these
have the words of the old ones.  Assembling a listing therefore writes the words
of the image that was listed, in the same order, to a blank image.
-/

namespace WordMachine

/-- The words of what an item of a listing shows. -/
def Listing.Item.tokens (labels : LabelTable) (item : Listing.Item) : List String :=
  Text.words (item.content.plainText labels).toList

namespace Program

variable {labels : LabelTable}

/-! ## Instructions -/

/-- The operands of an instruction as they are emitted, those that the source lacks included. -/
def emittedOperands (labels : LabelTable) (operation : Operation) (operands : List String) :
    List (OperandKind × Int) :=
  operands.map (emittedOperand labels) ++
    List.replicate (operation.arity.toNat - operands.length) Assembly.missingOperand

/-- The operands of an instruction as a listing spells them. -/
def listedOperands (labels : LabelTable) (operation : Operation) (operands : List String) :
    List String :=
  (emittedOperands labels operation operands).map (Listing.plainOperand labels)

section

variable {operation : Operation} {operands : List String}

theorem operandKinds_eq :
    operandKinds labels operation operands =
      (emittedOperands labels operation operands).map Prod.fst := by
  simp [operandKinds, emittedOperands, emittedOperand, Assembly.missingOperand]

theorem operandWords_eq :
    operandWords labels operation operands =
      (emittedOperands labels operation operands).map Prod.snd := by
  simp [operandWords, emittedOperands, emittedOperand, Assembly.missingOperand]

theorem isEmitted_of_mem
    (legible : labels.IsLegible) {operand : OperandKind × Int}
    (member : operand ∈ emittedOperands labels operation operands) :
    IsEmitted labels operand := by
  rcases List.mem_append.mp member with present | missing
  · rcases List.mem_map.mp present with ⟨token, _, rfl⟩
    exact isEmitted_emittedOperand legible token
  · rw [List.eq_of_mem_replicate missing]
    exact Word.wrap_fits 0

variable (complete : operands.length ≤ operation.arity.toNat)

include complete

theorem length_listedOperands :
    (listedOperands labels operation operands).length = operation.arity.toNat := by
  simp only [listedOperands, emittedOperands, List.length_map, List.length_append,
    List.length_replicate]
  omega

/-- What a listing spells is emitted as what was listed. -/
theorem emittedOperands_listedOperands (legible : labels.IsLegible) :
    emittedOperands labels operation (listedOperands labels operation operands) =
      emittedOperands labels operation operands := by
  rw [emittedOperands, length_listedOperands complete, Nat.sub_self, List.replicate_zero,
    List.append_nil, listedOperands, List.map_map]
  conv =>
    rhs
    rw [← List.map_id (emittedOperands labels operation operands)]
  apply List.map_congr_left
  intro operand member
  exact emittedOperand_plainOperand legible (isEmitted_of_mem legible member)

end

/-- An item with its operands as a listing spells them. -/
def Item.respelled (labels : LabelTable) (item : Item) : Item where
  address := item.address
  content :=
    match item.content with
    | .instruction index operation operands =>
        .instruction index operation (listedOperands labels operation operands)
    | .bareWord token => .bareWord token

section

variable {catalog : Catalog} {tokens : List String} {index : Nat} {operation : Operation}
  {operands : List String} (made : FromTokens catalog tokens index operation operands)

include made

theorem tokens_listed
    (legible : labels.IsLegible) (isWord : ∀ token ∈ tokens, Text.IsWord token)
    (address : Int) :
    ((Item.mk address (.instruction index operation operands)).listed labels).tokens labels =
      operation.name :: listedOperands labels operation operands := by
  apply Text.words_intercalate
  rw [List.forall_mem_cons]
  refine ⟨isWord _ made.name_mem, ?_⟩
  intro text member
  rcases List.mem_map.mp member with ⟨operand, listed, rfl⟩
  exact isWord_plainOperand legible (isEmitted_of_mem legible listed)

variable (encodable : catalog.IsEncodable) (legible : labels.IsLegible) (address : Int)

include encodable legible

/-- An instruction and what a listing makes of it have the same words. -/
theorem words_respelled :
    ((Item.mk address (.instruction index operation operands)).respelled labels).words labels =
      (Item.mk address (.instruction index operation operands)).words labels := by
  have same := emittedOperands_listedOperands made.length_le legible
  have full := Nat.le_of_eq (@length_listedOperands labels _ _ made.length_le)
  simp only [Item.respelled]
  rw [words_instruction full encodable made.listed,
    words_instruction made.length_le encodable made.listed, operandKinds_eq, operandKinds_eq,
    operandWords_eq, operandWords_eq, same]

theorem readable_respelled :
    ∀ part ∈ ((Item.mk address (.instruction index operation operands)).respelled labels).parts,
      part.IsReadable labels := by
  have full := Nat.le_of_eq (@length_listedOperands labels _ _ made.length_le)
  apply Assembly.readable_instruction_iff.mpr
  refine ⟨⟨_, value_mnemonic encodable made.listed full labels⟩, ?_⟩
  intro text member
  rcases List.mem_map.mp member with ⟨operand, listed, rfl⟩
  exact ⟨_, (reads_plainOperand legible (isEmitted_of_mem legible listed)).2⟩

end

/-! ## Programs of instructions -/

/-- There are instructions among the items and nothing else. -/
def OnlyInstructions (items : List Item) : Prop :=
  ∀ item ∈ items, ∀ token, item.content ≠ .bareWord token

theorem OnlyInstructions.exists_fromTokens
    {catalog : Catalog} {address : Int} {tokens : List String}
    (instructions : OnlyInstructions (parse catalog address tokens))
    {item : Item} (member : item ∈ parse catalog address tokens) :
    ∃ place index operation operands,
      item = ⟨place, .instruction index operation operands⟩ ∧
        FromTokens catalog tokens index operation operands := by
  rcases item with ⟨place, content⟩
  cases content with
  | bareWord token => exact (instructions _ member token rfl).elim
  | instruction index operation operands =>
      exact ⟨place, index, operation, operands, rfl, fromTokens_of_mem_parse member rfl⟩

/-- The tokens of a listing are cut into the items that it shows. -/
theorem parse_listed
    {catalog : Catalog} (legible : labels.IsLegible) {address : Int} {tokens : List String}
    (isWord : ∀ token ∈ tokens, Text.IsWord token)
    (instructions : OnlyInstructions (parse catalog address tokens)) :
    parse catalog address
        (((parse catalog address tokens).map (Item.listed labels)).flatMap
          (Listing.Item.tokens labels)) =
      (parse catalog address tokens).map (Item.respelled labels) := by
  fun_induction parse catalog address tokens with
  | case1 address => simp [parse]
  | case2 address token rest listed tailHolds =>
      exact (instructions _ List.mem_cons_self token rfl).elim
  | case3 address token rest index operation listed tailHolds =>
      rw [OnlyInstructions, List.forall_mem_cons] at instructions
      have made := fromTokens_cons listed rest
      have named := (Catalog.find?_eq_some_iff.mp listed).2.1
      subst named
      -- A listed instruction lacks no operand, so it ends where its text ends.
      have count := @length_listedOperands labels _ _ made.length_le
      have others : ∀ token ∈ rest.drop operation.arity.toNat, Text.IsWord token :=
        fun token dropped =>
          isWord token (List.mem_cons_of_mem _ (List.mem_of_mem_drop dropped))
      rw [List.map_cons, List.flatMap_cons, tokens_listed made legible isWord, List.cons_append,
        parse]
      simp only [listed]
      rw [List.take_left' count, List.drop_left' count, tailHolds others instructions.2]
      rfl

section

variable {catalog : Catalog} (encodable : catalog.IsEncodable) (legible : labels.IsLegible)
  {address : Int} {tokens : List String}
  (instructions : OnlyInstructions (parse catalog address tokens))

include encodable legible instructions

theorem flatMap_words_respelled :
    ((parse catalog address tokens).map (Item.respelled labels)).flatMap (Item.words labels) =
      (parse catalog address tokens).flatMap (Item.words labels) := by
  rw [List.flatMap_map, List.flatMap_def, List.flatMap_def]
  congr 1
  apply List.map_congr_left
  intro item member
  rcases instructions.exists_fromTokens member with ⟨place, index, operation, operands, rfl, made⟩
  exact words_respelled made encodable legible place

theorem isReadable_respelled :
    IsReadable labels ((parse catalog address tokens).map (Item.respelled labels)) := by
  rw [IsReadable, List.forall_mem_map]
  intro item member
  rcases instructions.exists_fromTokens member with ⟨place, index, operation, operands, rfl, made⟩
  exact readable_respelled made encodable legible place

end

/-! ## Assembling tokens -/

/-- A bench that holds the tokens and a blank image that knows the labels. -/
def benchOf (capacity : Int) (labels : LabelTable) (tokens : List String) : Workbench :=
  ⟨⟨codeStart, tokens.toArray⟩, { Image.blank capacity with labels := labels }⟩

theorem sound_benchOf
    {capacity : Int} (large : codeStart < capacity) (small : capacity ≤ maxCapacity)
    (tokens : List String) :
    (benchOf capacity labels tokens).Sound where
  toSound := by
    have blank := sound_blank large
    exact ⟨blank.codeStart_le_length, blank.length_le_capacity, blank.size_eq_capacity,
      blank.fits, blank.blank⟩
  capacity_le := small
  base_le := Int.le_refl _
  entry_le := Int.le_add_of_nonneg_right (Int.natCast_nonneg _)
  countable _ member := by cases member

theorem walk_benchOf
    {catalog : Catalog} (arities : catalog.HasArities) (capacity : Int) (tokens : List String) :
    Walk catalog (benchOf capacity labels tokens).tokens codeStart
      (parse catalog codeStart tokens) := by
  have walk := walk_parse arities ⟨codeStart, tokens.toArray⟩ 0
  rw [benchOf]
  simpa using walk

/-- Code and length after items are decided by the words of the items. -/
theorem performAll_eq_pushAll (bench : Workbench) (items : List Item) :
    (items.foldl Workbench.perform bench).image.code =
        (bench.pushAll (items.flatMap (Item.words bench.image.labels))).image.code ∧
      (items.foldl Workbench.perform bench).image.length =
        (bench.pushAll (items.flatMap (Item.words bench.image.labels))).image.length := by
  have words :
      items.flatMap (Item.words bench.image.labels) =
        (items.flatMap (Item.numbers bench.image.labels)).map Word.wrap :=
    List.map_flatMap.symm
  rw [words, Workbench.pushAll_map_wrap]
  exact Workbench.code_performAll bench items

/-! ## The listing of a load -/

section

variable {catalog : Catalog} {capacity : Int} {reader : SourceReader}
  {filenames : List String} {items : List Item} {image : Image}
  (loads : Loads catalog capacity reader filenames items image)

include loads

theorem Loads.isLegible (isPlain : ∀ name ∈ image.labels.names, Label.IsPlain name) :
    image.labels.IsLegible where
  isPlain := isPlain
  isUnbroken := fun _ => loads.isUnbroken_of_mem_names
  bounds := by
    intro item member
    have bounds := loads.label_bounds item member
    have inside := loads.sound.length_le_capacity
    have small := loads.capacity_le
    rw [loads.capacity_eq] at inside
    simp only [Word.Fits, maxCapacity] at *
    omega

/-- The listing of a program of instructions shows the items of the program. -/
theorem Loads.shows_listed
    (encodable : catalog.IsEncodable) (instructions : OnlyInstructions items) :
    Listing.Shows image catalog codeStart (items.map (Item.listed image.labels)) := by
  rcases loads.exists_drop_code_eq with ⟨after, ahead⟩
  have length_eq := loads.length_eq_words
  have items_eq := loads.items_eq_parse encodable.hasArities
  subst items_eq
  apply @shows_parse catalog image 9 after encodable _ ahead length_eq
  intro item member token content
  exact (instructions item member token content).elim

/-- Writing the words of the items to a blank image gives the code of the load. -/
theorem Loads.pushAll_benchOf (tokens : List String) :
    ((benchOf image.capacity image.labels tokens).pushAll
          (items.flatMap (Item.words image.labels))).image.code = image.code ∧
      ((benchOf image.capacity image.labels tokens).pushAll
          (items.flatMap (Item.words image.labels))).image.length = image.length := by
  have performed := performAll_eq_pushAll (surveyed capacity reader filenames) items
  rw [← loads.labels_eq] at performed
  have sameCode :
      (benchOf image.capacity image.labels tokens).image.code =
        (surveyed capacity reader filenames).image.code := by
    rw [image_surveyed, loads.capacity_eq]
    rfl
  have sameLength :
      (benchOf image.capacity image.labels tokens).image.length =
        (surveyed capacity reader filenames).image.length := by
    rw [length_surveyed]
    rfl
  have written := Workbench.pushAll_congr (items.flatMap (Item.words image.labels)) sameCode
    sameLength
  rw [← performed.1, ← performed.2] at written
  refine ⟨written.1.trans ?_, written.2.trans ?_⟩
  · rw [loads.eq_performed]
  · rw [loads.eq_performed]

/-- Tokens that stand for the words of the items are assembled to the code of the load. -/
theorem Loads.exists_assemble
    (arities : catalog.HasArities) {tokens : List String}
    (readable : IsReadable image.labels (parse catalog codeStart tokens))
    (words : (parse catalog codeStart tokens).flatMap (Item.words image.labels) =
      items.flatMap (Item.words image.labels)) :
    ∃ after,
      Assembly.assemble catalog (benchOf image.capacity image.labels tokens) = .ok () after ∧
        after.image.length = image.length ∧ after.image.code = image.code := by
  have bounds : codeStart < image.capacity ∧ image.capacity ≤ maxCapacity := by
    rw [loads.capacity_eq]
    exact ⟨loads.codeStart_lt, loads.capacity_le⟩
  have room :
      (benchOf image.capacity image.labels tokens).image.length +
          ((parse catalog codeStart tokens).flatMap Item.parts).length ≤
        (benchOf image.capacity image.labels tokens).image.capacity := by
    have sizes := congrArg List.length words
    rw [flatMap_words, flatMap_words, List.length_map, List.length_map] at sizes
    rw [sizes]
    show codeStart + _ ≤ image.capacity
    rw [loads.capacity_eq]
    exact loads.room
  have performed :=
    performAll_eq_pushAll (benchOf image.capacity image.labels tokens)
      (parse catalog codeStart tokens)
  have same : (benchOf image.capacity image.labels tokens).image.labels = image.labels := rfl
  rw [same, words, (loads.pushAll_benchOf tokens).1, (loads.pushAll_benchOf tokens).2] at performed
  refine ⟨_, (assemble_eq_ok_iff (sound_benchOf bounds.1 bounds.2 tokens)).mpr
    ⟨_, walk_benchOf arities image.capacity tokens, readable, room, rfl⟩, ?_, ?_⟩
  · rw [image_checked]
    exact performed.2
  · rw [image_checked]
    exact performed.1

end

/--
A listing of instructions whose texts, split into tokens and assembled with the
labels of the image, give the code of the image again.
-/
structure Reassembles (catalog : Catalog) (image : Image) (items : List Listing.Item)
    (after : Workbench) : Prop where
  items_eq : Listing.items image catalog = .ok items
  /-- The texts of the items are written, and split into the tokens that are assembled. -/
  text_eq : ∀ item ∈ items,
    item.content.text image.labels = .ok (item.content.plainText image.labels)
  entries_eq :
    Listing.entries image catalog =
      .ok (Listing.plainHeader image ++
        items.flatMap (fun item =>
          (Listing.sortedNames image.labels item.address).map (fun name => "$" ++ name) ++
            [Listing.padded (toString item.address) ++ ": " ++
              item.content.plainText image.labels ++ Listing.plainNote image item.address]))
  instructions : ∀ item ∈ items, item.IsInstruction
  assembled :
    Assembly.assemble catalog
        (benchOf image.capacity image.labels
          (items.flatMap (Listing.Item.tokens image.labels))) =
      .ok () after
  length_eq : after.image.length = image.length
  code_eq : after.image.code = image.code

/--
If the program of an image consists of instructions and its labels have plain
names, then the listing of the image assembles to the code of the image.
-/
theorem reassembles_of_load
    {catalog : Catalog} (encodable : catalog.IsEncodable)
    {capacity : Int} {assembler : Assembler}
    (created : Assembler.create catalog capacity = .ok assembler)
    {reader : SourceReader} {filenames : List String} {image : Image}
    (loaded : (assembler.load reader filenames).1 = .ok image)
    (instructions :
      OnlyInstructions (parse catalog codeStart (retained (sourceTokens reader filenames))))
    (isPlain : ∀ name ∈ image.labels.names, Label.IsPlain name) :
    ∃ items after, Reassembles catalog image items after := by
  rcases (load_eq_ok_iff created).mp loaded with ⟨items, loads⟩
  have legible := loads.isLegible isPlain
  have isWord : ∀ token ∈ retained (sourceTokens reader filenames), Text.IsWord token :=
    fun token member => isWord_of_mem_sourceTokens (List.mem_filter.mp member).1
  have items_eq := loads.items_eq_parse encodable.hasArities
  subst items_eq
  have shows := loads.shows_listed encodable instructions
  have limits := loads.hasWritableParts.isWithinLimits shows
  have parsed := parse_listed legible isWord instructions
  have words := flatMap_words_respelled encodable legible instructions
  have readable := isReadable_respelled encodable legible instructions
  rw [← parsed] at words readable
  rcases loads.exists_assemble encodable.hasArities readable words with
    ⟨after, assembled, length_eq, code_eq⟩
  refine ⟨_, after, Listing.items_of_shows shows, ?_,
    (Listing.yields_entries shows).eq_ok limits, ?_, assembled, length_eq, code_eq⟩
  · intro item member
    exact (Listing.yields_text image.labels item.content).eq_ok
      (limits.items item member).writable_text
  · rw [List.forall_mem_map]
    intro item member
    rcases instructions.exists_fromTokens member with ⟨_, index, operation, operands, rfl, _⟩
    exact ⟨_, _, rfl⟩

/--
Two labels of one address, an undefined label, a number that is too large for a
word, and an instruction that lacks an operand.
-/
def aliasedProgram : SourceReader :=
  singleSource "a" "$go $top: mov *u 4294967291\nadd a top +7 mov *go"

theorem reassembles_aliasedProgram :
    Catalog.standard.IsEncodable ∧
      ∃ assembler image,
        Assembler.create Catalog.standard 40 = .ok assembler ∧
          (assembler.load aliasedProgram ["a"]).1 = .ok image ∧
            OnlyInstructions (parse Catalog.standard codeStart
              (retained (sourceTokens aliasedProgram ["a"]))) ∧
              (∀ name ∈ image.labels.names, Label.IsPlain name) ∧
                ∃ items after,
                  Reassembles Catalog.standard image items after ∧
                    items.map (fun item => (item.content.text image.labels).toOption) =
                      [some "mov *0 -5", some "add a go 7", some "mov *go 0"] := by
  have encodable := Catalog.isEncodable_standard
  have created : Assembler.create Catalog.standard 40 = .ok ⟨Catalog.standard, 40, none⟩ := rfl
  have parsed :
      parse Catalog.standard codeStart (retained (sourceTokens aliasedProgram ["a"])) =
        [ ⟨9, .instruction 2 ⟨"mov", 2⟩ ["*u", "4294967291"]⟩,
          ⟨12, .instruction 3 ⟨"add", 3⟩ ["a", "top", "+7"]⟩,
          ⟨16, .instruction 2 ⟨"mov", 2⟩ ["*go"]⟩ ] := by
    decide +kernel
  have instructions :
      OnlyInstructions (parse Catalog.standard codeStart
        (retained (sourceTokens aliasedProgram ["a"]))) := by
    rw [parsed]
    simp [OnlyInstructions]
  have succeeds :
      (((Assembler.mk Catalog.standard 40 none).load aliasedProgram ["a"]).1.toOption.map
        (fun image =>
          (image.labels.names,
            (Listing.items image Catalog.standard).toOption.map
              (List.map (fun item => (item.content.text image.labels).toOption))))) =
        some
          (["a", "b", "c", "d", "e", "r", "sp", "bp", "go", "top"],
            some [some "mov *0 -5", some "add a go 7", some "mov *go 0"]) := by
    decide +kernel
  rcases Option.map_eq_some_iff.mp succeeds with ⟨image, found, shown⟩
  rcases Prod.mk.inj shown with ⟨names, texts⟩
  have loaded := eq_ok_of_toOption found
  have isPlain : ∀ name ∈ image.labels.names, Label.IsPlain name := by
    have unmarked : ∀ name ∈ ["a", "b", "c", "d", "e", "r", "sp", "bp", "go", "top"],
        name ≠ "" ∧ name.toList.head? ≠ some '*' ∧ name.toList.head? ≠ some '&' ∧
          name.toList.head? ≠ some Label.marker ∧ name.toList.getLast? ≠ some ':' ∧
            ¬ Numeral.IsNumeral name := by
      decide +kernel
    rw [names]
    intro name member
    rcases unmarked name member with ⟨nonempty, star, ampersand, marker, colon, notNumeral⟩
    refine ⟨nonempty, star, ampersand, marker, colon, ?_⟩
    rintro number rfl
    exact notNumeral (Numeral.isNumeral_toString number)
  rcases reassembles_of_load encodable created loaded instructions isPlain with
    ⟨items, after, reassembles⟩
  rw [reassembles.items_eq] at texts
  exact ⟨encodable, _, image, created, loaded, instructions, isPlain, items, after, reassembles,
    Option.some.inj texts⟩

end Program

end WordMachine
