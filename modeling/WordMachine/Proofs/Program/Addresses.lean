import WordMachine.Proofs.Program.Load

/-!
# Addresses of tokens

The first pass fixes addresses by counting retained tokens, and the second
pass writes words one after the other.  The two agree: in a program whose
operations all have arities that are not negative, the word of a token stands
as many places behind the registers as tokens stand before it.
-/

namespace WordMachine

namespace Program

/-! ## Words of tokens -/

/-- An operand denotes what assembling it gives, whatever the place and the bench. -/
theorem assembleOperand_of_value
    {labels : LabelTable} {token : String} {value : Int}
    (denoted : (Part.operand token).value labels = .ok value)
    (address : Int) {bench : Workbench} (sameLabels : bench.image.labels = labels)
    (countable : bench.image.HasCountableLines) :
    ∃ after,
      Assembly.assembleOperand token address bench =
        .ok (operandKind labels token, value) after := by
  subst sameLabels
  exact ⟨_, (Assembly.assembleOperand_eq_ok_iff countable).mpr ⟨rfl, denoted, rfl⟩⟩

/-- The words of an image stand at the addresses of the tokens they were made from. -/
structure AgreesWithTokens (catalog : Catalog) (tokens : List String) (image : Image) :
    Prop where
  /-- The word of each token is the signed word congruent to what the token denotes. -/
  word_of_token : ∀ (index : Nat) (token : String), tokens[index]? = some token →
    ∃ part value word,
      ((parse catalog codeStart tokens).flatMap Item.parts)[index]? = some part ∧
        part.token? = some token ∧
          part.value image.labels = .ok value ∧
            image.code[9 + index]? = some word ∧
              Word.Fits word ∧ word % Word.modulus = value % Word.modulus
  /--
  What operands denote is what assembling them gives under the labels of the image,
  on every bench whose line records can be counted, as those of the image can.
  -/
  operand_value : ∀ token ∈ tokens, ∀ value,
    (Part.operand token).value image.labels = .ok value →
      ∀ (address : Int) (bench : Workbench), bench.image.labels = image.labels →
        bench.image.HasCountableLines →
          ∃ after,
            Assembly.assembleOperand token address bench =
              .ok (operandKind image.labels token, value) after
  countable : image.HasCountableLines
  length_eq :
    image.length =
      codeStart + tokens.length + lackingAtEnd (parse catalog codeStart tokens)
  /-- Operands that the last instruction lacks are zero. -/
  padding : ∀ offset < lackingAtEnd (parse catalog codeStart tokens),
    image.code[9 + tokens.length + offset]? = some 0
  /-- So is every word outside the code. -/
  blank : ∀ position : Nat, position < image.code.size →
    (position : Int) < codeStart ∨ image.length ≤ position → image.code[position]? = some 0
  size_eq : (image.code.size : Int) = image.capacity

/--
Both passes agree on every address: a load puts the word of each retained
token at the address that counting tokens gives it.
-/
theorem agreesWithTokens_of_load
    {catalog : Catalog} (arities : catalog.HasArities)
    {capacity : Int} {assembler : Assembler}
    (created : Assembler.create catalog capacity = .ok assembler)
    {reader : SourceReader} {filenames : List String} {image : Image}
    (loaded : (assembler.load reader filenames).1 = .ok image) :
    AgreesWithTokens catalog (retained (sourceTokens reader filenames)) image := by
  rcases (load_eq_ok_iff created).mp loaded with ⟨items, loads⟩
  have items_eq := loads.items_eq_parse arities
  have readable := loads.readable
  rw [← loads.labels_eq] at readable
  constructor
  case word_of_token =>
    intro index token found
    rcases @part_of_token catalog codeStart _ index token found with ⟨part, here, read⟩
    rw [← items_eq] at here
    have denotes : part.IsReadable image.labels := by
      rcases List.mem_flatMap.mp (List.mem_of_getElem? here) with ⟨item, inItems, inParts⟩
      exact readable item inItems part inParts
    refine ⟨part, part.number image.labels, _, items_eq ▸ here, read,
      Part.value_eq_number denotes, loads.code_part here, Word.wrap_fits _, Word.wrap_emod _⟩
  case operand_value =>
    intro token _ value denoted address bench sameLabels countable
    exact assembleOperand_of_value denoted address sameLabels countable
  case countable => exact loads.hasCountableLines
  case length_eq =>
    rw [loads.length_eq, items_eq, length_parts_parse]
    omega
  case padding =>
    intro offset inside
    have here := part_behind_tokens inside
    rw [← items_eq] at here
    have written := loads.code_part here
    rw [← Nat.add_assoc] at written
    rw [written]
    rfl
  case blank => exact loads.sound.blank
  case size_eq => exact loads.sound.size_eq_capacity

/-- A label, an operand on the next line, bare words, and an instruction cut off by the end. -/
def cutOffProgram : SourceReader :=
  singleSource "a" "$x mov x\n &x 7 entry push *y\nadd $z: z"

theorem agreesWithTokens_cutOffProgram :
    Catalog.standard.HasArities ∧
      ∃ assembler image,
        Assembler.create Catalog.standard 40 = .ok assembler ∧
          (assembler.load cutOffProgram ["a"]).1 = .ok image ∧
            AgreesWithTokens Catalog.standard
              ["mov", "x", "&x", "7", "push", "*y", "add", "z"] image := by
  have created : Assembler.create Catalog.standard 40 = .ok ⟨Catalog.standard, 40, none⟩ := rfl
  have tokens :
      retained (sourceTokens cutOffProgram ["a"]) =
        ["mov", "x", "&x", "7", "push", "*y", "add", "z"] := by
    decide +kernel
  have succeeds :
      ((Assembler.mk Catalog.standard 40 none).load cutOffProgram ["a"]).1.toOption.isSome = true := by
    decide +kernel
  rcases Option.isSome_iff_exists.mp succeeds with ⟨image, found⟩
  have loaded := eq_ok_of_toOption found
  refine ⟨Catalog.hasArities_standard, _, image, created, loaded, ?_⟩
  rw [← tokens]
  exact agreesWithTokens_of_load Catalog.hasArities_standard created loaded

end Program

end WordMachine
