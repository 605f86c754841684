import WordMachine.Proofs.Instruction
import WordMachine.Proofs.Numeral
import WordMachine.Proofs.Program.Capacity
import WordMachine.Proofs.Text.Utf8
import WordMachine.Proofs.Text.Words

/-!
# The outcome of a load

Whether a load gives an image is decided by the files and by the size of the
program alone, as long as the operations of the catalog have instruction words
and no number in the sources is too long: every part of the program then denotes
some number.  The first file that cannot be read is reported before anything is
emitted.  If all can be read, the load fails exactly when the program with its
padding does not fit.
-/

namespace WordMachine

/-- Every operation has an instruction word: its position and its operands fit the fields. -/
structure Catalog.IsEncodable (catalog : Catalog) : Prop where
  length_le : catalog.length ≤ 65536
  arity_bounds : ∀ operation ∈ catalog, 0 ≤ operation.arity ∧ operation.arity ≤ 4

theorem Catalog.isEncodable_standard : Catalog.standard.IsEncodable where
  length_le := by decide
  arity_bounds :=
    show ∀ operation ∈ Catalog.standard, 0 ≤ operation.arity ∧ operation.arity ≤ 4 by decide

theorem Catalog.IsEncodable.hasArities {catalog : Catalog} (encodable : catalog.IsEncodable) :
    catalog.HasArities :=
  fun operation member => (encodable.arity_bounds operation member).1

theorem Catalog.IsEncodable.bounds_of_find?
    {catalog : Catalog} (encodable : catalog.IsEncodable)
    {name : String} {index : Nat} {operation : Operation}
    (listed : catalog.find? name = some (index, operation)) :
    index < 65536 ∧ operation.arity.toNat ≤ Instruction.maxOperands := by
  have here := (Catalog.find?_eq_some_iff.mp listed).1
  have inside := (List.getElem?_eq_some_iff.mp here).1
  have room := encodable.length_le
  have arity := encodable.arity_bounds operation (List.mem_of_getElem? here)
  rw [Instruction.maxOperands]
  omega

theorem Catalog.IsEncodable.isWritable_arity
    {catalog : Catalog} (encodable : catalog.IsEncodable)
    {name : String} {index : Nat} {operation : Operation}
    (listed : catalog.find? name = some (index, operation)) :
    Numeral.IsWritable operation.arity := by
  have here := (Catalog.find?_eq_some_iff.mp listed).1
  have arity := encodable.arity_bounds operation (List.mem_of_getElem? here)
  apply Numeral.isWritable_of_natAbs_lt
  omega

namespace Program

/-! ## Parts that denote numbers -/

theorem exists_valuation_of_isShort {token : String} (short : Numeral.IsShort token) :
    (∃ valuation, Valuation.ofNumber token = .ok valuation) ∧
      ∃ valuation, Valuation.ofBareLabel token = .ok valuation := by
  rcases Numeral.exists_read_of_isShort short with ⟨reading, reads⟩
  simp only [Valuation.ofNumber, Valuation.ofBareLabel, reads]
  exact ⟨⟨_, rfl⟩, ⟨_, rfl⟩⟩

theorem isReadable_operand
    {token : String} (short : Numeral.IsShort token) (labels : LabelTable) :
    (Part.operand token).IsReadable labels := by
  rcases exists_valuation_of_isShort short with ⟨⟨number, valued⟩, _⟩
  simp only [Part.IsReadable, Part.value, Valuation.ofOperand]
  cases Token.shape token with
  | reference name => exact ⟨_, rfl⟩
  | address name => exact ⟨_, rfl⟩
  | plain =>
      by_cases unresolved : labels.resolve token = unresolvedAddress
      · simp only [if_pos unresolved, valued]
        exact ⟨_, rfl⟩
      · simp only [if_neg unresolved]
        exact ⟨_, rfl⟩

theorem isReadable_bareWord
    {token : String} (short : Numeral.IsShort token) (labels : LabelTable) :
    (Part.bareWord token).IsReadable labels := by
  rcases exists_valuation_of_isShort short with ⟨⟨number, valued⟩, ⟨bare, bareValued⟩⟩
  simp only [Part.IsReadable, Part.value, Valuation.ofBareWord]
  have unmarked :
      ∃ value,
        (if labels.contains token then Valuation.ofBareLabel token
          else Valuation.ofNumber token).map Valuation.value = .ok value := by
    cases labels.contains token with
    | true => exact ⟨bare.value, by rw [if_pos rfl, bareValued]; rfl⟩
    | false => exact ⟨number.value, by rw [if_neg (by decide), valued]; rfl⟩
  cases Token.shape token with
  | address name => exact ⟨_, rfl⟩
  | reference name => exact unmarked
  | plain => exact unmarked

/-- The kinds of all operands of an instruction, those that the source lacks included. -/
def operandKinds (labels : LabelTable) (operation : Operation) (operands : List String) :
    List OperandKind :=
  operands.map (operandKind labels) ++
    List.replicate (operation.arity.toNat - operands.length) .literal

theorem length_operandKinds
    (labels : LabelTable) {operation : Operation} {operands : List String}
    (complete : operands.length ≤ operation.arity.toNat) :
    (operandKinds labels operation operands).length = operation.arity.toNat := by
  rw [operandKinds, List.length_append, List.length_map, List.length_replicate]
  omega

/-- The head of an instruction has the word that its index and its kinds make up. -/
theorem value_mnemonic
    {catalog : Catalog} (encodable : catalog.IsEncodable)
    {name : String} {index : Nat} {operation : Operation}
    (listed : catalog.find? name = some (index, operation))
    {operands : List String} (complete : operands.length ≤ operation.arity.toNat)
    (labels : LabelTable) :
    (Part.mnemonic index operation operands).value labels =
      .ok ((Instruction.tag (operandKinds labels operation operands) * 65536 + index : Nat) :
        Int) := by
  rcases encodable.bounds_of_find? listed with ⟨small, few⟩
  rw [← length_operandKinds labels complete] at few
  exact Assembly.mnemonic_value_eq_ok_iff.mpr (Instruction.encode_of_fits small few)

/-- If no number is too long, then every part of a program denotes a number. -/
theorem isReadable_parse
    {catalog : Catalog} (encodable : catalog.IsEncodable) (labels : LabelTable)
    (address : Int) {tokens : List String} (short : ∀ token ∈ tokens, Numeral.IsShort token) :
    IsReadable labels (parse catalog address tokens) := by
  fun_induction parse catalog address tokens with
  | case1 address => simp [IsReadable]
  | case2 address token rest listed tailHolds =>
      rw [List.forall_mem_cons] at short
      rw [IsReadable, List.forall_mem_cons]
      refine ⟨?_, tailHolds short.2⟩
      simp only [Item.parts, List.forall_mem_singleton]
      exact isReadable_bareWord short.1 labels
  | case3 address token rest index operation listed tailHolds =>
      rw [List.forall_mem_cons] at short
      rw [IsReadable, List.forall_mem_cons]
      constructor
      · apply Assembly.readable_instruction_iff.mpr
        refine ⟨⟨_, value_mnemonic encodable listed (List.length_take_le _ _) labels⟩, ?_⟩
        intro operand member
        exact isReadable_operand (short.2 operand (List.mem_of_mem_take member)) labels
      · apply tailHolds
        intro other member
        exact short.2 other (List.mem_of_mem_drop member)

/-! ## Reading the files -/

/-- The file can be opened and what it holds is the encoding of a text. -/
def IsSource (reader : SourceReader) (filename : String) : Prop :=
  ∃ text, reader filename = .ok (Text.Utf8.encode text)

theorem readText_eq_ok
    {reader : SourceReader} {filename text : String} (plain : holdsNul filename = false)
    (opened : reader filename = .ok (Text.Utf8.encode text)) :
    readText reader filename = .ok text.toList := by
  have decoded : Text.Utf8.decode (Text.Utf8.encode text) = .ok text.toList :=
    Text.Utf8.decode_eq_ok_iff.mpr (by rw [String.ofList_toList])
  simp only [readText, plain, opened, decoded]
  rfl

theorem readText_of_isSource
    {reader : SourceReader} {filename : String} (plain : holdsNul filename = false)
    (source : IsSource reader filename) :
    ∃ text, readText reader filename = .ok text := by
  rcases source with ⟨text, opened⟩
  exact ⟨text.toList, readText_eq_ok plain opened⟩

/-- The one raw token of a file that consists of a single word. -/
theorem sourceTokens_of_isWord
    {reader : SourceReader} {filename word : String} (plain : holdsNul filename = false)
    (opened : reader filename = .ok (Text.Utf8.encode word)) (isWord : Text.IsWord word)
    (uncommented : Token.commentMarker ∉ word.toList) :
    sourceTokens reader [filename] = [word] := by
  simp [sourceTokens, readText_eq_ok plain opened, Text.lines_of_isWord isWord,
    Token.raw_of_isWord isWord uncommented]

theorem readText_of_not_isSource
    {reader : SourceReader} {filename : String} (plain : holdsNul filename = false)
    (noSource : ¬ IsSource reader filename) :
    ∃ fault, readText reader filename = .error (.unreadableSource filename fault) := by
  simp only [readText, plain, Bool.false_eq_true, if_false]
  cases opened : reader filename with
  | error fault => exact ⟨_, rfl⟩
  | ok bytes =>
      simp only
      cases decoded : Text.Utf8.decode bytes with
      | error fault => exact ⟨_, rfl⟩
      | ok text =>
          rw [Text.Utf8.decode_eq_ok_iff.mp decoded] at opened
          exact (noSource ⟨_, opened⟩).elim

theorem holdsNul_of_readText
    {reader : SourceReader} {filename : String} {text : List Char}
    (taken : readText reader filename = .ok text) :
    holdsNul filename = false := by
  cases plain : holdsNul filename with
  | true => simp [readText, plain] at taken
  | false => rfl

theorem isSource_of_readText
    {reader : SourceReader} {filename : String} {text : List Char}
    (taken : readText reader filename = .ok text) :
    IsSource reader filename := by
  apply Classical.byContradiction
  intro noSource
  rcases readText_of_not_isSource (holdsNul_of_readText taken) noSource with ⟨fault, refused⟩
  rw [refused] at taken
  cases taken

/-- Reading stops at the first file that is no source, with a fault that names it. -/
theorem readSources_of_not_isSource
    {reader : SourceReader} {filenames : List String}
    (plain : ∀ filename ∈ filenames, holdsNul filename = false)
    (noSource : ¬ ∀ filename ∈ filenames, IsSource reader filename) (before : Workbench) :
    ∃ earlier filename later fault after,
      filenames = earlier ++ filename :: later ∧
        (∀ other ∈ earlier, IsSource reader other) ∧ ¬ IsSource reader filename ∧
          Assembly.readSources reader filenames before =
            .error (.unreadableSource filename fault) after := by
  induction filenames generalizing before with
  | nil => exact (noSource (by simp)).elim
  | cons filename rest tailHolds =>
      rw [List.forall_mem_cons] at plain
      by_cases source : IsSource reader filename
      · have others : ¬ ∀ other ∈ rest, IsSource reader other :=
          fun all => noSource (List.forall_mem_cons.mpr ⟨source, all⟩)
        have read :
            Assembly.readSource reader filename before =
              .ok () (before.readLines (sourceLines reader filename)) :=
          Assembly.readSource_eq_ok_iff.mpr ⟨readText_of_isSource plain.1 source, rfl⟩
        rcases tailHolds plain.2 others (before.readLines (sourceLines reader filename)) with
          ⟨earlier, faulty, later, fault, after, rfl, sources, unreadable, failed⟩
        refine ⟨filename :: earlier, faulty, later, fault, after, rfl,
          List.forall_mem_cons.mpr ⟨source, sources⟩, unreadable, ?_⟩
        rw [Assembly.readSources, Assembly.bind_of_ok read]
        exact failed
      · rcases readText_of_not_isSource plain.1 source with ⟨fault, unreadable⟩
        refine ⟨[], filename, rest, fault, before, rfl, by simp, source, ?_⟩
        apply Assembly.bind_of_error
        rw [Assembly.readSource_eq, unreadable]

/-! ## Loading -/

/-- The number of words that a program takes up with the registers and with its padding. -/
def programSize (catalog : Catalog) (tokens : List String) : Int :=
  codeStart + tokens.length + lackingAtEnd (parse catalog codeStart tokens)

theorem programSize_eq (catalog : Catalog) (tokens : List String) :
    programSize catalog tokens =
      codeStart + ((parse catalog codeStart tokens).flatMap Item.parts).length := by
  rw [programSize, length_parts_parse]
  omega

theorem walk_surveyed
    {catalog : Catalog} (arities : catalog.HasArities) (capacity : Int)
    (reader : SourceReader) (filenames : List String) :
    Walk catalog (surveyed capacity reader filenames).tokens codeStart
      (parse catalog codeStart (retained (sourceTokens reader filenames))) := by
  have walk := walk_parse arities
    ⟨codeStart, (retained (sourceTokens reader filenames)).toArray⟩ 0
  rw [tokens_surveyed]
  simpa using walk

theorem load_of_readSources_error
    {catalog : Catalog} {capacity : Int} {reader : SourceReader} {filenames : List String}
    {fault : AssemblyFault} {after : Workbench}
    (failed : Assembly.readSources reader filenames (Workbench.initial capacity) =
      .error fault after) :
    ((Assembler.mk catalog capacity none).load reader filenames).1 = .error fault := by
  have run :
      Assembly.run catalog reader filenames (Workbench.initial capacity) = .error fault after :=
    Assembly.bind_of_error failed
  simp only [Assembler.load, run]

section

variable {catalog : Catalog} (encodable : catalog.IsEncodable)
  {capacity : Int} {assembler : Assembler}
  (created : Assembler.create catalog capacity = .ok assembler)
  {reader : SourceReader} {filenames : List String}
  (texts : ∀ filename ∈ filenames, ∃ text, readText reader filename = .ok text)
  (short : ∀ token ∈ retained (sourceTokens reader filenames), Numeral.IsShort token)

include encodable created texts short

theorem exists_image_of_fits
    (fits : programSize catalog (retained (sourceTokens reader filenames)) ≤ capacity) :
    ∃ image, (assembler.load reader filenames).1 = .ok image := by
  rcases create_eq_ok_iff.mp created with ⟨large, small, _⟩
  have walk := walk_surveyed encodable.hasArities capacity reader filenames
  have readable :=
    isReadable_parse encodable (surveyed capacity reader filenames).image.labels codeStart short
  rw [programSize_eq] at fits
  exact ⟨_, (load_eq_ok_iff created).mpr
    ⟨_, large, small, texts, walk, readable, fits, rfl⟩⟩

theorem capacityExceeded_of_excess
    (excess : capacity < programSize catalog (retained (sourceTokens reader filenames))) :
    (assembler.load reader filenames).1 =
      .error (.capacityExceeded capacity
        ((surveyed capacity reader filenames).image.placeAt capacity)) := by
  have walk := walk_surveyed encodable.hasArities capacity reader filenames
  have readable :=
    isReadable_parse encodable (surveyed capacity reader filenames).image.labels codeStart short
  rw [programSize_eq] at excess
  exact load_eq_error_of_excess created texts walk readable excess

end

/-- The outcome of a load is decided by the files and by the size of the program. -/
structure DecidedBySize (catalog : Catalog) (capacity : Int) (reader : SourceReader)
    (filenames : List String) (outcome : Except AssemblyFault Image) : Prop where
  /-- The first file that is no source is reported, whatever the program is. -/
  unreadable : (∃ filename ∈ filenames, ¬ IsSource reader filename) →
    ∃ earlier filename later fault,
      filenames = earlier ++ filename :: later ∧
        (∀ other ∈ earlier, IsSource reader other) ∧ ¬ IsSource reader filename ∧
          outcome = .error (.unreadableSource filename fault)
  /-- If all files are sources, there is a capacity fault if the program is too large. -/
  overflow_iff : (∀ filename ∈ filenames, IsSource reader filename) →
    ((∃ source, outcome = .error (.capacityExceeded capacity source)) ↔
      capacity < programSize catalog (retained (sourceTokens reader filenames)))
  /-- If the program is not too large either, there is an image. -/
  image_of_fits : (∀ filename ∈ filenames, IsSource reader filename) →
    programSize catalog (retained (sourceTokens reader filenames)) ≤ capacity →
      ∃ image, outcome = .ok image

/--
For a catalog whose operations have instruction words, and without numbers that
are too long, only an unreadable file or a lack of room keeps a load from giving
an image.
-/
theorem decidedBySize_of_load
    {catalog : Catalog} (encodable : catalog.IsEncodable)
    {capacity : Int} {assembler : Assembler}
    (created : Assembler.create catalog capacity = .ok assembler)
    {reader : SourceReader} {filenames : List String}
    (plain : ∀ filename ∈ filenames, holdsNul filename = false)
    (short : ∀ token ∈ retained (sourceTokens reader filenames), Numeral.IsShort token) :
    DecidedBySize catalog capacity reader filenames (assembler.load reader filenames).1 := by
  have texts : (∀ filename ∈ filenames, IsSource reader filename) →
      ∀ filename ∈ filenames, ∃ text, readText reader filename = .ok text :=
    fun sources filename member =>
      readText_of_isSource (plain filename member) (sources filename member)
  constructor
  case unreadable =>
    rintro ⟨faulty, member, noSource⟩
    rcases readSources_of_not_isSource plain (fun all => noSource (all faulty member))
        (Workbench.initial capacity) with
      ⟨earlier, filename, later, fault, after, split, sources, unreadable, failed⟩
    refine ⟨earlier, filename, later, fault, split, sources, unreadable, ?_⟩
    rw [(create_eq_ok_iff.mp created).2.2]
    exact load_of_readSources_error failed
  case overflow_iff =>
    intro sources
    constructor
    · rintro ⟨source, failed⟩
      apply Int.not_le.mp
      intro fits
      rcases exists_image_of_fits encodable created (texts sources) short fits with
        ⟨image, loaded⟩
      rw [loaded] at failed
      cases failed
    · intro excess
      exact ⟨_, capacityExceeded_of_excess encodable created (texts sources) short excess⟩
  case image_of_fits =>
    intro sources fits
    exact exists_image_of_fits encodable created (texts sources) short fits

/-- An instruction that needs one word more than its tokens. -/
def tightProgram : SourceReader :=
  singleSource "a" "mov *x ~ y"

/-- The program is too large by its padding, and a second file that is missing comes first. -/
theorem decidedBySize_tightProgram :
    Catalog.standard.IsEncodable ∧
      (∀ filename ∈ ["a", "b"], holdsNul filename = false) ∧
        (∀ token ∈ retained (sourceTokens tightProgram ["a", "b"]), Numeral.IsShort token) ∧
          programSize Catalog.standard (retained (sourceTokens tightProgram ["a", "b"])) = 12 ∧
            ∃ assembler,
              Assembler.create Catalog.standard 11 = .ok assembler ∧
                DecidedBySize Catalog.standard 11 tightProgram ["a"]
                    (assembler.load tightProgram ["a"]).1 ∧
                  DecidedBySize Catalog.standard 11 tightProgram ["a", "b"]
                    (assembler.load tightProgram ["a", "b"]).1 := by
  have encodable := Catalog.isEncodable_standard
  have created : Assembler.create Catalog.standard 11 = .ok ⟨Catalog.standard, 11, none⟩ := rfl
  have plain : ∀ filename ∈ ["a", "b"], holdsNul filename = false := by decide
  have tokens : sourceTokens tightProgram ["a"] = ["mov", "*x"] := by decide +kernel
  have sameTokens : sourceTokens tightProgram ["a", "b"] = ["mov", "*x"] := by decide +kernel
  have short : ∀ token ∈ retained ["mov", "*x"], Numeral.IsShort token := by
    intro token member
    apply Numeral.isShort_of_length_le
    revert token
    decide
  refine ⟨encodable, plain, sameTokens ▸ short, ?_, _, created, ?_, ?_⟩
  · rw [sameTokens]
    decide +kernel
  · exact decidedBySize_of_load encodable created (by decide) (tokens ▸ short)
  · exact decidedBySize_of_load encodable created plain (sameTokens ▸ short)

end Program

end WordMachine
