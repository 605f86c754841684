import WordMachine.Proofs.Listing.Text
import WordMachine.Proofs.Program.Lines
import WordMachine.Proofs.Program.Outcome

/-!
# Listings of loaded programs

The listing of an image knows nothing of the tokens that the image was made
from.  All the same it recovers the items of the program, as long as no bare
word happens to be an instruction word: the word of a mnemonic gives back the
operation and the operand kinds, so the listing moves on by exactly the words
that the item was emitted to, padding included.  An error at one item would
shift all those behind it, which is why the induction below is on the parse, with
the words ahead split as the parse splits the tokens.
-/

namespace WordMachine

namespace Program

/-! ## What a listing is to show -/

/-- The words that an item is emitted to. -/
def Item.words (labels : LabelTable) (item : Item) : List Int :=
  (item.numbers labels).map Word.wrap

theorem flatMap_words (labels : LabelTable) (items : List Item) :
    items.flatMap (Item.words labels) =
      (items.flatMap Item.parts).map (fun part => Word.wrap (part.number labels)) := by
  calc items.flatMap (Item.words labels)
      = (items.flatMap (Item.numbers labels)).map Word.wrap := List.map_flatMap.symm
    _ = (items.flatMap Item.parts).map (fun part => Word.wrap (part.number labels)) := by
        rw [Workbench.flatMap_numbers, List.map_map]
        rfl

theorem Item.length_words (labels : LabelTable) (item : Item) :
    (item.words labels).length = item.parts.length := by
  simp [Item.words, Item.numbers]

/-- The kind of an operand and the word it is emitted to. -/
def emittedOperand (labels : LabelTable) (token : String) : OperandKind × Int :=
  (operandKind labels token, Word.wrap ((Part.operand token).number labels))

/-- An item as a listing shows it. -/
def Item.listed (labels : LabelTable) (item : Item) : Listing.Item where
  address := item.address
  content :=
    match item.content with
    | .instruction _ operation operands =>
        .instruction operation
          (operands.map (emittedOperand labels) ++
            List.replicate item.lacking Assembly.missingOperand)
    | .bareWord token => .word (Word.wrap ((Part.bareWord token).number labels))

/-- The lines of a listing that show an item: the labels of its address, then the item. -/
def Item.listedLines (image : Image) (item : Item) : List String :=
  (Listing.sortedNames image.labels item.address).map (fun name => "$" ++ name) ++
    [Listing.plainLine image (item.listed image.labels)]

/--
The listing of an image shows the program on the lines, item by item, and names
the place of each item.
-/
structure ListsProgram (catalog : Catalog) (lines : List PlacedLine) (image : Image) : Prop where
  items_eq :
    Listing.items image catalog =
      .ok ((parse catalog codeStart (retained (rawTokens lines))).map (Item.listed image.labels))
  /-- Every part of the program denotes a number. -/
  readable : IsReadable image.labels (parse catalog codeStart (retained (rawTokens lines)))
  /-- The words that are shown are those of the code. -/
  emitted :
    (parse catalog codeStart (retained (rawTokens lines))).flatMap (Item.words image.labels) =
      (image.code.toList.take image.length.toNat).drop 9
  render_eq :
    Listing.render image catalog =
      .ok (String.intercalate "\n"
        (Listing.plainHeader image ++
          (parse catalog codeStart (retained (rawTokens lines))).flatMap
            (Item.listedLines image)))
  /-- The line of an item ends with the place of the line that its first token was read on. -/
  itemLine_eq : ∀ item ∈ parse catalog codeStart (retained (rawTokens lines)),
    ∃ (index : Nat) (source : SourceLine) (text : String),
      item.address = codeStart + index ∧
        (taggedTokens lines)[index]? = some (item.head, source) ∧
          (item.listed image.labels).content.text image.labels = .ok text ∧
            Listing.plainLine image (item.listed image.labels) =
                Listing.padded (toString item.address) ++ ": " ++ text ++
                  ("  ~ " ++ source.filename ++ ":" ++ toString source.number) ∧
              Listing.itemLine image (item.listed image.labels) =
                .ok (Listing.plainLine image (item.listed image.labels))

/-! ## Items in the code -/

/-- The words of all operands of an instruction, those that the source lacks included. -/
def operandWords (labels : LabelTable) (operation : Operation) (operands : List String) :
    List Int :=
  operands.map (fun token => Word.wrap ((Part.operand token).number labels)) ++
    List.replicate (operation.arity.toNat - operands.length) 0

section

variable {labels : LabelTable} {operation : Operation} {operands : List String}

theorem zip_operandKinds_operandWords :
    (operandKinds labels operation operands).zip (operandWords labels operation operands) =
      operands.map (emittedOperand labels) ++
        List.replicate (operation.arity.toNat - operands.length) Assembly.missingOperand := by
  rw [operandKinds, operandWords, List.zip_append (by simp), List.zip_map', List.zip_replicate']
  rfl

variable (complete : operands.length ≤ operation.arity.toNat)

include complete

theorem length_operandWords :
    (operandWords labels operation operands).length = operation.arity.toNat := by
  simp [operandWords]
  omega

theorem words_instruction
    {catalog : Catalog} (encodable : catalog.IsEncodable)
    {name : String} {index : Nat} (found : catalog.find? name = some (index, operation))
    (address : Int) :
    (Item.mk address (.instruction index operation operands)).words labels =
      ((Instruction.tag (operandKinds labels operation operands) * 65536 + index : Nat) : Int) ::
        operandWords labels operation operands := by
  rcases encodable.bounds_of_find? found with ⟨small, few⟩
  rw [← length_operandKinds labels complete] at few
  have head :
      (Part.mnemonic index operation operands).number labels =
        ((Instruction.tag (operandKinds labels operation operands) * 65536 + index : Nat) :
          Int) := by
    rw [Part.number, value_mnemonic encodable found complete labels]
  rw [Item.words, Assembly.numbers_instruction, List.map_cons, head,
    Word.wrap_of_fits (Instruction.fits_word small few)]
  simp [operandWords]

end

section

variable {catalog : Catalog} {image : Image} {position : Nat} {after : List Int}

/-- An instruction of the program is shown as such. -/
theorem contentAt_instruction
    (encodable : catalog.IsEncodable)
    {name : String} {index : Nat} {operation : Operation} {operands : List String}
    (found : catalog.find? name = some (index, operation))
    (complete : operands.length ≤ operation.arity.toNat)
    (ahead : image.code.toList.drop position =
      (Item.mk position (.instruction index operation operands)).words image.labels ++ after)
    (inside : position + operation.arity < image.length) :
    Listing.contentAt image catalog position =
      .ok ((Item.mk position (.instruction index operation operands)).listed
        image.labels).content := by
  have arity := encodable.hasArities.of_find? found
  have kinds := length_operandKinds image.labels complete
  have words := @length_operandWords image.labels _ _ complete
  rw [words_instruction complete encodable found, List.cons_append] at ahead
  rw [Listing.contentAt_of_encoded (encodable.bounds_of_find? found).1
    (Catalog.find?_eq_some_iff.mp found).1 (by omega) inside (by omega) ahead,
    zip_operandKinds_operandWords]
  rfl

theorem drop_of_ahead
    {code words ahead : List Int} (split : code.drop position = words ++ ahead) :
    code.drop (position + words.length) = ahead := by
  rw [← List.drop_drop, split, List.drop_left]

/--
The listing follows the parse.  At every step the words ahead are those of the
items ahead, and the item shown takes up the words that it was emitted to.
-/
theorem shows_parse
    (encodable : catalog.IsEncodable) (tokens : List String)
    (ahead : image.code.toList.drop position =
      (parse catalog position tokens).flatMap (Item.words image.labels) ++ after)
    (length_eq : image.length =
      position + ((parse catalog position tokens).flatMap (Item.words image.labels)).length)
    (undecoded : ∀ item ∈ parse catalog position tokens, ∀ token,
      item.content = .bareWord token → Listing.decodeAt image catalog item.address = .ok none) :
    Listing.Shows image catalog position
      ((parse catalog position tokens).map (Item.listed image.labels)) := by
  generalize start : (position : Int) = address at ahead length_eq undecoded ⊢
  fun_induction parse catalog address tokens generalizing position with
  | case1 address =>
      rw [List.flatMap_nil, List.length_nil] at length_eq
      simp only [List.map_nil, Listing.Shows]
      omega
  | case2 address token rest listed tailHolds =>
      subst start
      rw [List.flatMap_cons, List.append_assoc] at ahead
      rw [List.flatMap_cons, List.length_append] at length_eq
      rw [List.forall_mem_cons] at undecoded
      have size : ((Item.mk position (.bareWord token)).words image.labels).length = 1 := rfl
      rw [List.map_cons]
      refine ⟨by omega, rfl, ?_, ?_⟩
      · exact Listing.contentAt_of_undecoded ahead (undecoded.1 token rfl)
      · exact tailHolds rfl (drop_of_ahead ahead) (by omega) undecoded.2
  | case3 address token rest index operation listed tailHolds =>
      subst start
      rw [List.flatMap_cons, List.append_assoc] at ahead
      rw [List.flatMap_cons, List.length_append] at length_eq
      rw [List.forall_mem_cons] at undecoded
      have arity := encodable.hasArities.of_find? listed
      have size := (Item.mk position (.instruction index operation
        (rest.take operation.arity.toNat))).length_words image.labels
      rw [length_parts_instruction (List.length_take_le _ _)] at size
      rw [List.map_cons]
      refine ⟨by omega, rfl, ?_, ?_⟩
      · exact contentAt_instruction encodable listed (List.length_take_le _ _) ahead (by omega)
      · have next :
            (position : Int) + (1 + operation.arity.toNat : Nat) =
              position + 1 + operation.arity := by
          omega
        show Listing.Shows image catalog (position + (1 + operation.arity.toNat : Nat)) _
        rw [next]
        exact tailHolds (by omega) (drop_of_ahead ahead) (by omega) undecoded.2

end

/-! ## The listing of a load -/

section

variable {catalog : Catalog} {capacity : Int} {reader : SourceReader}
  {filenames : List String} {items : List Item} {image : Image}
  (loads : Loads catalog capacity reader filenames items image)

include loads

/-- Behind the registers stand the words of the items. -/
theorem Loads.exists_drop_code_eq :
    ∃ after, image.code.toList.drop 9 = items.flatMap (Item.words image.labels) ++ after := by
  have written : items.flatMap (Item.words image.labels) <+: image.code.toList.drop 9 := by
    rw [flatMap_words, List.prefix_iff_getElem?]
    intro index inside
    rw [List.length_map] at inside
    rw [List.getElem?_drop, Array.getElem?_toList,
      loads.code_part (List.getElem?_eq_getElem inside), List.getElem_map]
  rcases written with ⟨after, ahead⟩
  exact ⟨after, ahead.symm⟩

/-- Nothing in a loaded image is beyond the limits of a listing. -/
theorem Loads.hasWritableParts : Listing.HasWritableParts image := by
  have entry := loads.entry_bounds
  have inside := loads.sound.length_le_capacity
  have small := loads.capacity_le
  rw [loads.capacity_eq] at inside
  rw [codeStart] at entry
  rw [maxCapacity] at small
  constructor
  case entry =>
    apply Numeral.isWritable_of_natAbs_lt
    omega
  case length =>
    apply Numeral.isWritable_of_natAbs_lt
    omega
  case words =>
    intro word member
    exact Listing.isWritable_of_fits (loads.sound.fits word member)
  case numbers =>
    intro entry member
    rcases loads.isSmallRecord_of_mem_records member with ⟨_, positive, bounded⟩
    rw [maxFileSize] at bounded
    apply Numeral.isWritable_of_natAbs_lt
    omega
  case countable => exact loads.hasCountableLines

theorem Loads.length_eq_words :
    image.length = codeStart + (items.flatMap (Item.words image.labels)).length := by
  rw [loads.length_eq, flatMap_words, List.length_map]

end

/-- The address of an item leads to the place that its first token was read at. -/
theorem plainNote_of_mem_parse
    {catalog : Catalog} (arities : catalog.HasArities) {lines : List PlacedLine} {image : Image}
    (recorded : image.lines = (recordsFrom codeStart lines).foldl LineTable.record .empty)
    {item : Item} (member : item ∈ parse catalog codeStart (retained (rawTokens lines))) :
    ∃ (index : Nat) (source : SourceLine),
      item.address = codeStart + index ∧
        (taggedTokens lines)[index]? = some (item.head, source) ∧
          Listing.plainNote image item.address =
            "  ~ " ++ source.filename ++ ":" ++ toString source.number := by
  rcases exists_index_of_mem_parse arities member with ⟨index, place, here⟩
  rcases exists_source_of_getElem? here with ⟨source, tagged⟩
  rcases exists_atAddress?_of_taggedTokens recorded tagged with ⟨entry, found, rfl⟩
  refine ⟨index, entry.source, place, tagged, ?_⟩
  rw [Listing.plainNote, place, found, Option.map_some, Option.getD_some]

/--
For a catalog whose operations have instruction words, the listing of a loaded
image recovers the program from the words, unless a bare word of the program
can itself be read as an instruction.
-/
theorem listsProgram_of_load
    {catalog : Catalog} (encodable : catalog.IsEncodable)
    {capacity : Int} {assembler : Assembler}
    (created : Assembler.create catalog capacity = .ok assembler)
    {reader : SourceReader} {filenames : List String} {image : Image}
    (loaded : (assembler.load reader filenames).1 = .ok image)
    (undecoded : ∀ item ∈ parse catalog codeStart (retained (sourceTokens reader filenames)),
      ∀ token, item.content = .bareWord token →
        Listing.decodeAt image catalog item.address = .ok none) :
    ListsProgram catalog (filenames.flatMap (sourceLines reader)) image := by
  rcases (load_eq_ok_iff created).mp loaded with ⟨items, loads⟩
  have tokens := rawTokens_sourceLines reader filenames
  rw [← tokens] at undecoded
  have items_eq := loads.items_eq_parse encodable.hasArities
  rw [← tokens] at items_eq
  subst items_eq
  rcases loads.exists_drop_code_eq with ⟨after, ahead⟩
  have length_eq := loads.length_eq_words
  have shows : Listing.Shows image catalog codeStart
      ((parse catalog codeStart (retained (rawTokens
        (filenames.flatMap (sourceLines reader))))).map (Item.listed image.labels)) :=
    @shows_parse catalog image 9 after encodable _ ahead length_eq undecoded
  have limits := loads.hasWritableParts.isWithinLimits shows
  constructor
  case items_eq => exact Listing.items_of_shows shows
  case readable =>
    rw [loads.labels_eq]
    exact loads.readable
  case emitted =>
    have count :
        image.length.toNat - 9 =
          ((parse catalog codeStart (retained (rawTokens
            (filenames.flatMap (sourceLines reader))))).flatMap
              (Item.words image.labels)).length := by
      rw [length_eq, codeStart]
      omega
    rw [List.drop_take, count, ahead, List.take_left]
  case render_eq =>
    rw [(Listing.yields_render shows).eq_ok limits, Listing.plainEntries, List.flatMap_map]
    rfl
  case itemLine_eq =>
    intro item member
    rcases plainNote_of_mem_parse encodable.hasArities loads.lines_eq member with
      ⟨index, source, place, tagged, note⟩
    have within := limits.items _ (List.mem_map_of_mem member)
    have text :=
      (Listing.yields_text image.labels (item.listed image.labels).content).eq_ok
        within.writable_text
    refine ⟨index, source, _, place, tagged, text, ?_,
      (Listing.yields_itemLine image (item.listed image.labels)).eq_ok within⟩
    rw [← note]
    rfl

/-- Labels, a bare word that is negative, and an instruction that lacks an operand. -/
def labelledProgram : SourceReader :=
  singleSource "a" "$go mov *x &go ~ y\n-5 $x\nadd x 3"

theorem listsProgram_labelledProgram :
    Catalog.standard.IsEncodable ∧
      ∃ assembler image,
        Assembler.create Catalog.standard 40 = .ok assembler ∧
          (assembler.load labelledProgram ["a"]).1 = .ok image ∧
            (∀ item ∈ parse Catalog.standard codeStart
                (retained (sourceTokens labelledProgram ["a"])),
              ∀ token, item.content = .bareWord token →
                Listing.decodeAt image Catalog.standard item.address = .ok none) ∧
              ListsProgram Catalog.standard (["a"].flatMap (sourceLines labelledProgram)) image ∧
                Listing.entries image Catalog.standard =
                  .ok
                    [ "~ Entry point: 9",
                      "~ Code length: 17 words",
                      "",
                      "$go",
                      "    9: mov *x 9  ~ a:1",
                      "   12: .word -5  ~ a:2",
                      "$x",
                      "   13: add x 3 0  ~ a:3" ] := by
  have encodable := Catalog.isEncodable_standard
  have created : Assembler.create Catalog.standard 40 = .ok ⟨Catalog.standard, 40, none⟩ := rfl
  have parsed :
      parse Catalog.standard codeStart (retained (sourceTokens labelledProgram ["a"])) =
        [ ⟨9, .instruction 2 ⟨"mov", 2⟩ ["*x", "&go"]⟩,
          ⟨12, .bareWord "-5"⟩,
          ⟨13, .instruction 3 ⟨"add", 3⟩ ["x", "3"]⟩ ] := by
    decide +kernel
  have succeeds :
      (((Assembler.mk Catalog.standard 40 none).load labelledProgram ["a"]).1.toOption.map
        (fun image =>
          ((Listing.decodeAt image Catalog.standard 12).toOption,
            (Listing.entries image Catalog.standard).toOption))) =
        some
          (some none,
            some
              [ "~ Entry point: 9",
                "~ Code length: 17 words",
                "",
                "$go",
                "    9: mov *x 9  ~ a:1",
                "   12: .word -5  ~ a:2",
                "$x",
                "   13: add x 3 0  ~ a:3" ]) := by
    decide +kernel
  rcases Option.map_eq_some_iff.mp succeeds with ⟨image, found, listing⟩
  rcases Prod.mk.inj listing with ⟨number, entries⟩
  have loaded := eq_ok_of_toOption found
  have undecoded : ∀ item ∈ parse Catalog.standard codeStart
      (retained (sourceTokens labelledProgram ["a"])),
      ∀ token, item.content = .bareWord token →
        Listing.decodeAt image Catalog.standard item.address = .ok none := by
    rw [parsed]
    intro item member token bare
    simp only [List.mem_cons, List.not_mem_nil, or_false] at member
    rcases member with rfl | rfl | rfl
    · cases bare
    · exact eq_ok_of_toOption number
    · cases bare
  exact ⟨encodable, _, image, created, loaded, undecoded,
    listsProgram_of_load encodable created loaded undecoded, eq_ok_of_toOption entries⟩

end Program

end WordMachine
