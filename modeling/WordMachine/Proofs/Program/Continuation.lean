import WordMachine.Proofs.Program.Warnings

/-!
# Programs that are continued

Files that are read behind a program share its tokens and its label table, so
they could take part in its last instruction or bind its labels anew.  If the
program lacks no operand and the files define none of the labels it can refer
to, they do neither: the parse of the longer program starts with the parse of
the shorter one, every part of that denotes the same number and gives rise to
the same concerns, and every address leads to the same line.
-/

namespace WordMachine

namespace Token

/-- What stands behind a mark is the token without its first character. -/
theorem tail_of_shape
    {token name : String}
    (marked : shape token = .reference name ∨ shape token = .address name) :
    name = String.ofList token.toList.tail := by
  simp only [shape] at marked
  split at marked
  case h_1 rest characters =>
    simp only [Shape.reference.injEq, reduceCtorEq, or_false] at marked
    rw [← marked, characters, List.tail_cons]
  case h_2 rest characters =>
    simp only [Shape.address.injEq, reduceCtorEq, false_or] at marked
    rw [← marked, characters, List.tail_cons]
  case h_3 => simp only [reduceCtorEq, or_self] at marked

end Token

namespace Program

/-! ## What a part depends on -/

/-- The tables agree on the labels that a token can refer to, with and without a mark. -/
structure AgreeOn (left right : LabelTable) (token : String) : Prop where
  whole : left.find? token = right.find? token
  marked : left.find? (String.ofList token.toList.tail) =
    right.find? (String.ofList token.toList.tail)

/-- The tokens by which a part refers to labels. -/
def Part.references : Part → List String
  | .mnemonic _ _ operands => operands
  | .operand token => [token]
  | .padding => []
  | .bareWord token => [token]

section

variable {left right : LabelTable}

theorem resolve_of_find? {query : String} (same : left.find? query = right.find? query) :
    left.resolve query = right.resolve query := by
  rw [LabelTable.resolve, LabelTable.resolve, same]

theorem contains_of_find? {query : String} (same : left.find? query = right.find? query) :
    left.contains query = right.contains query := by
  rw [Bool.eq_iff_iff, ← Bool.not_eq_false, ← Bool.not_eq_false, ← LabelTable.find?_eq_none_iff,
    ← LabelTable.find?_eq_none_iff, same]

section

variable {token : String} (agree : AgreeOn left right token)

include agree

theorem operandKind_congr : operandKind left token = operandKind right token := by
  simp only [operandKind, resolve_of_find? agree.whole]

theorem ofLabel_congr {name : String} (tail : name = String.ofList token.toList.tail) :
    Valuation.ofLabel left name = Valuation.ofLabel right name := by
  subst tail
  simp only [Valuation.ofLabel, resolve_of_find? agree.marked]

theorem labelConcerns_congr {name : String} (tail : name = String.ofList token.toList.tail) :
    labelConcerns left name = labelConcerns right name := by
  subst tail
  simp only [labelConcerns, contains_of_find? agree.marked]

theorem ofOperand_congr : Valuation.ofOperand left token = Valuation.ofOperand right token := by
  simp only [Valuation.ofOperand]
  cases shape : Token.shape token with
  | reference name =>
      exact congrArg Except.ok (ofLabel_congr agree (Token.tail_of_shape (.inl shape)))
  | address name =>
      exact congrArg Except.ok (ofLabel_congr agree (Token.tail_of_shape (.inr shape)))
  | plain => rw [resolve_of_find? agree.whole]

theorem ofBareWord_congr : Valuation.ofBareWord left token = Valuation.ofBareWord right token := by
  simp only [Valuation.ofBareWord]
  cases shape : Token.shape token with
  | address name =>
      exact congrArg Except.ok (ofLabel_congr agree (Token.tail_of_shape (.inr shape)))
  | reference name => rw [contains_of_find? agree.whole]
  | plain => rw [contains_of_find? agree.whole]

end

variable {part : Part} (agree : ∀ token ∈ part.references, AgreeOn left right token)

include agree

/-- A part denotes the same under tables that agree on what it refers to. -/
theorem Part.value_congr : part.value left = part.value right := by
  cases part with
  | mnemonic index operation operands =>
      have kinds : operands.map (operandKind left) = operands.map (operandKind right) :=
        List.map_congr_left fun token member => operandKind_congr (agree token member)
      rw [Part.value, Part.value, kinds]
  | operand token =>
      rw [Part.value, Part.value, ofOperand_congr (agree token (List.mem_singleton_self token))]
  | padding => rfl
  | bareWord token =>
      rw [Part.value, Part.value, ofBareWord_congr (agree token (List.mem_singleton_self token))]

theorem Part.number_congr : part.number left = part.number right := by
  rw [Part.number, Part.number, Part.value_congr agree]

theorem Part.concerns_congr : part.concerns left = part.concerns right := by
  cases part with
  | mnemonic index operation operands => rfl
  | operand token =>
      have here := agree token (List.mem_singleton_self token)
      simp only [Part.concerns]
      cases shape : Token.shape token with
      | reference name => exact labelConcerns_congr here (Token.tail_of_shape (.inl shape))
      | address name => exact labelConcerns_congr here (Token.tail_of_shape (.inr shape))
      | plain => rw [contains_of_find? here.whole]
  | padding => rfl
  | bareWord token =>
      have here := agree token (List.mem_singleton_self token)
      simp only [Part.concerns]
      cases shape : Token.shape token with
      | address name => exact labelConcerns_congr here (Token.tail_of_shape (.inr shape))
      | reference name => rw [contains_of_find? here.whole]
      | plain => rw [contains_of_find? here.whole]

end

/-! ## The shorter and the longer program -/

/-- A part refers to labels by tokens of its program only. -/
theorem mem_of_mem_references
    {catalog : Catalog} (arities : catalog.HasArities)
    {address : Int} {tokens : List String} {part : Part}
    (inParts : part ∈ (parse catalog address tokens).flatMap Item.parts)
    {token : String} (refers : token ∈ part.references) :
    token ∈ tokens := by
  rcases List.mem_flatMap.mp inParts with ⟨⟨place, content⟩, member, inItem⟩
  cases content with
  | bareWord bare =>
      rcases exists_index_of_mem_parse arities member with ⟨index, _, here⟩
      rw [Item.parts, List.mem_singleton] at inItem
      subst inItem
      rw [Part.references, List.mem_singleton] at refers
      subst refers
      exact List.mem_of_getElem? here
  | instruction index operation operands =>
      have made := fromTokens_of_mem_parse member rfl
      simp only [Item.parts, List.mem_cons, List.mem_append, List.mem_map] at inItem
      rcases inItem with rfl | ⟨operand, present, rfl⟩ | padding
      · exact made.operands_subset token refers
      · rw [Part.references, List.mem_singleton] at refers
        subst refers
        exact made.operands_subset token present
      · rw [List.eq_of_mem_replicate padding] at refers
        cases refers

theorem recordedLines_append (address : Int) (lines more : List PlacedLine) :
    recordedLines (recordsFrom address (lines ++ more)) (lines ++ more) =
      recordedLines (recordsFrom address lines) lines ++
        recordedLines
          (recordsFrom (address + (retained (rawTokens lines)).length) more) more := by
  have sameLength : (recordsFrom address lines).length = (lines.map Prod.snd).length := by
    simpa using congrArg List.length (map_source_recordsFrom address lines)
  rw [Workbench.recordsFrom_append, recordedLines, List.map_append, List.zip_append sameLength]
  rfl

/-- Further lines leave the records of the tokens before them as they are. -/
theorem exists_atAddress?_append
    {lines more : List PlacedLine} {image extended : Image}
    (recorded : image.lines = (recordsFrom codeStart lines).foldl LineTable.record .empty)
    (recordedMore : extended.lines =
      (recordsFrom codeStart (lines ++ more)).foldl LineTable.record .empty)
    {index : Nat} (inside : index < (retained (rawTokens lines)).length) :
    ∃ entry,
      image.lines.atAddress? (codeStart + index) = some entry ∧
        extended.lines.atAddress? (codeStart + index) = some entry := by
  have count := congrArg List.length (map_fst_taggedTokens_recordedLines codeStart lines)
  rw [List.length_map] at count
  have here :
      index < (taggedTokens (recordedLines (recordsFrom codeStart lines) lines)).length := by
    omega
  have first := atAddress?_codeStart_add recorded index
  have second := atAddress?_codeStart_add recordedMore index
  rw [recordedLines_append, taggedTokens, List.flatMap_append, ← taggedTokens,
    List.getElem?_append_left here, ← first] at second
  rw [List.getElem?_eq_getElem here] at first
  exact ⟨_, first, second.trans first⟩

/--
Remarks about the same parts become the same warnings if the parts give rise to
the same concerns and their addresses lead to the same places.
-/
theorem map_warning_remarksFrom_congr
    {left right : LabelTable} {image extended : Image} {address : Int} {parts : List Part}
    (concerns : ∀ part ∈ parts, part.concerns left = part.concerns right)
    (places : ∀ index : Nat, index < parts.length →
      image.placeAt (address + index) = extended.placeAt (address + index)) :
    (remarksFrom left address parts).map (Remark.warning image) =
      (remarksFrom right address parts).map (Remark.warning extended) := by
  induction parts generalizing address with
  | nil => rfl
  | cons part rest tailHolds =>
      rw [List.forall_mem_cons] at concerns
      have here : image.placeAt address = extended.placeAt address := by
        simpa using places 0 (Nat.zero_lt_succ _)
      have further : ∀ index : Nat, index < rest.length →
          image.placeAt (address + 1 + index) = extended.placeAt (address + 1 + index) := by
        intro index below
        have next := places (index + 1) (Nat.succ_lt_succ below)
        have place : address + ((index + 1 : Nat) : Int) = address + 1 + index := by omega
        rwa [place] at next
      rw [remarksFrom, remarksFrom, List.map_append, List.map_append, concerns.1,
        tailHolds concerns.2 further, List.map_map, List.map_map]
      simp only [Function.comp_def, Remark.warning, here]

/-! ## Missing operands -/

/-- The message says that an operation of the catalog lacks operands. -/
def ReportsMissingOperands (catalog : Catalog) (message : String) : Prop :=
  ∃ operation ∈ catalog, ∃ available : Int,
    message = (Concern.missingOperands operation.name operation.arity available).message

theorem Loads.warning_mem
    {catalog : Catalog} {capacity : Int} {reader : SourceReader}
    {filenames : List String} {items : List Item} {image : Image}
    (loads : Loads catalog capacity reader filenames items image)
    {item : Item} (member : item ∈ items)
    {remark : Remark} (remarked : remark ∈ item.remarks image.labels) :
    remark.warning image ∈ image.warnings := by
  rw [← Array.mem_toList_iff, loads.warnings_eq]
  apply List.mem_append_left
  apply List.mem_map_of_mem
  exact List.mem_flatMap.mpr ⟨item, member, remarked⟩

/-- A load without a warning of missing operands has read its last item completely. -/
theorem Loads.lackingAtEnd_eq_zero
    {catalog : Catalog} (arities : catalog.HasArities) {capacity : Int} {reader : SourceReader}
    {filenames : List String} {items : List Item} {image : Image}
    (loads : Loads catalog capacity reader filenames items image)
    (complete : ∀ warning ∈ image.warnings, ¬ ReportsMissingOperands catalog warning.message) :
    lackingAtEnd items = 0 := by
  have items_eq := loads.items_eq_parse arities
  simp only [lackingAtEnd]
  cases last : items.getLast? with
  | none => rfl
  | some item =>
      have member := List.mem_of_getLast? last
      rcases item with ⟨address, content⟩
      cases content with
      | bareWord token => rfl
      | instruction index operation operands =>
          have made := fromTokens_of_mem_parse (items_eq ▸ member) rfl
          have listed := (Catalog.find?_eq_some_iff.mp made.listed).1
          -- An item that lacks operands would have been reported.
          apply Decidable.byContradiction
          intro lacking
          have missing : (operands.length : Int) < operation.arity := by
            simp only [Item.lacking] at lacking
            omega
          have remarked :
              (⟨.missingOperands operation.name operation.arity operands.length, address⟩ :
                  Remark) ∈
                (Item.mk address (.instruction index operation operands)).remarks
                  image.labels := by
            simp [Item.remarks, Item.missingRemarks, missing]
          exact complete _ (loads.warning_mem member remarked)
            ⟨operation, List.mem_of_getElem? listed, operands.length, rfl⟩

/-! ## Loads of both programs -/

/--
The image of the longer program holds that of the shorter one: what belongs to
the tokens of the first files is the same in both.
-/
structure ContinuesProgram (reader : SourceReader) (filenames more : List String)
    (image extended : Image) : Prop where
  words : ∀ index < (retained (sourceTokens reader filenames)).length,
    ∃ word, image.code[9 + index]? = some word ∧ extended.code[9 + index]? = some word
  lines : ∀ index < (retained (sourceTokens reader filenames)).length,
    ∃ entry,
      image.lines.atAddress? (codeStart + index) = some entry ∧
        extended.lines.atAddress? (codeStart + index) = some entry
  /-- Labels that the further files do not define keep their addresses. -/
  labels : ∀ query, (∀ token ∈ sourceTokens reader more, ¬ Defines query token) →
    extended.labels.find? query = image.labels.find? query
  entry : Token.entryKeyword ∉ sourceTokens reader more → extended.entry = image.entry
  /-- The warnings of the longer program start with those of the shorter one, its entry apart. -/
  warnings : ∃ located,
    image.warnings.toList = located ++ warningsAt .unknown (entryConcerns image) ∧
      located <+: extended.warnings.toList

section

variable {catalog : Catalog} {capacity : Int} {reader : SourceReader}
  {filenames more : List String} {items longerItems : List Item} {image extended : Image}
  (loads : Loads catalog capacity reader filenames items image)
  (loadsMore : Loads catalog capacity reader (filenames ++ more) longerItems extended)

theorem sourceTokens_append (reader : SourceReader) (filenames more : List String) :
    sourceTokens reader (filenames ++ more) =
      sourceTokens reader filenames ++ sourceTokens reader more :=
  List.flatMap_append

include loads loadsMore

theorem Loads.find?_append
    {query : String} (absent : ∀ token ∈ sourceTokens reader more, ¬ Defines query token) :
    extended.labels.find? query = image.labels.find? query := by
  rw [loads.labels_eq, loadsMore.labels_eq, find?_surveyed, find?_surveyed, sourceTokens_append,
    List.foldl_append]
  apply Workbench.find?_foldl_absorb_of_absent
  intro token member defines same
  exact absent token member ⟨defines, same⟩

theorem Loads.entry_append (absent : Token.entryKeyword ∉ sourceTokens reader more) :
    extended.entry = image.entry := by
  rw [loads.entry_eq, loadsMore.entry_eq, entry_surveyed, entry_surveyed, sourceTokens_append,
    List.foldl_append]
  apply Workbench.entry_foldl_absorb_of_absent
  intro token member role
  exact absent (Token.role_eq_entry_iff.mp role ▸ member)

/-- If none of the labels is defined anew, the parts of the shorter program depend on neither. -/
theorem Loads.agreeOn_append
    (arities : catalog.HasArities)
    (apart : ∀ definition ∈ sourceTokens reader more, Token.role definition = .definition →
      ∀ token ∈ retained (sourceTokens reader filenames),
        Label.normalize definition ≠ Label.normalize token ∧
          Label.normalize definition ≠ Label.normalize (String.ofList token.toList.tail))
    {part : Part} (inParts : part ∈ items.flatMap Item.parts)
    {token : String} (refers : token ∈ part.references) :
    AgreeOn image.labels extended.labels token := by
  rw [loads.items_eq_parse arities] at inParts
  have member := mem_of_mem_references arities inParts refers
  constructor
  · apply Eq.symm
    apply loads.find?_append loadsMore
    rintro definition defined ⟨role, same⟩
    exact (apart definition defined role token member).1 same
  · apply Eq.symm
    apply loads.find?_append loadsMore
    rintro definition defined ⟨role, same⟩
    exact (apart definition defined role token member).2 same

section

variable {rest : List Item} (longer : longerItems = items ++ rest)

include longer

theorem Loads.exists_word_append
    (numbers : ∀ part ∈ items.flatMap Item.parts,
      part.number image.labels = part.number extended.labels)
    {index : Nat} (inside : index < (items.flatMap Item.parts).length) :
    ∃ word, image.code[9 + index]? = some word ∧ extended.code[9 + index]? = some word := by
  have here := List.getElem?_eq_getElem inside
  have there :
      (longerItems.flatMap Item.parts)[index]? = some (items.flatMap Item.parts)[index] := by
    rw [longer, List.flatMap_append, List.getElem?_append_left inside, here]
  refine ⟨_, loads.code_part here, ?_⟩
  rw [loadsMore.code_part there, numbers _ (List.getElem_mem inside)]

theorem Loads.located_append
    (consecutive : Consecutive codeStart items)
    (concerns : ∀ part ∈ items.flatMap Item.parts,
      part.concerns image.labels = part.concerns extended.labels)
    (places : ∀ index < (items.flatMap Item.parts).length,
      image.placeAt (codeStart + index) = extended.placeAt (codeStart + index)) :
    (items.flatMap (Item.remarks image.labels)).map (Remark.warning image) <+:
      extended.warnings.toList := by
  have readable := loads.readable
  have readableMore := loadsMore.readable
  rw [← loads.labels_eq] at readable
  rw [← loadsMore.labels_eq, longer, IsReadable, List.forall_mem_append] at readableMore
  have remarks := flatMap_remarks_eq_remarksFrom
    (fun item member => (loads.label_bounds item member).1) consecutive readable
  have remarksMore := flatMap_remarks_eq_remarksFrom
    (fun item member => (loadsMore.label_bounds item member).1) consecutive readableMore.1
  rw [remarks, map_warning_remarksFrom_congr concerns places, ← remarksMore,
    loadsMore.warnings_eq, longer, List.flatMap_append, List.map_append, List.append_assoc]
  exact List.prefix_append _ _

end

end

/--
Files that are read behind a program leave it as it is, provided that its last
instruction does not lack operands and that they define no label which a token
of the program can refer to.
-/
theorem continuesProgram_of_load
    {catalog : Catalog} (arities : catalog.HasArities)
    {capacity : Int} {assembler : Assembler}
    (created : Assembler.create catalog capacity = .ok assembler)
    {reader : SourceReader} {filenames more : List String} {image extended : Image}
    (loaded : (assembler.load reader filenames).1 = .ok image)
    (loadedMore : (assembler.load reader (filenames ++ more)).1 = .ok extended)
    (complete : ∀ warning ∈ image.warnings, ¬ ReportsMissingOperands catalog warning.message)
    (apart : ∀ definition ∈ sourceTokens reader more, Token.role definition = .definition →
      ∀ token ∈ retained (sourceTokens reader filenames),
        Label.normalize definition ≠ Label.normalize token ∧
          Label.normalize definition ≠ Label.normalize (String.ofList token.toList.tail)) :
    ContinuesProgram reader filenames more image extended := by
  rcases (load_eq_ok_iff created).mp loaded with ⟨items, loads⟩
  rcases (load_eq_ok_iff created).mp loadedMore with ⟨longerItems, loadsMore⟩
  have items_eq := loads.items_eq_parse arities
  have lacking := loads.lackingAtEnd_eq_zero arities complete
  have longer :
      longerItems =
        items ++
          parse catalog (codeStart + (retained (sourceTokens reader filenames)).length)
            (retained (sourceTokens reader more)) := by
    rw [items_eq] at lacking
    rw [loadsMore.items_eq_parse arities, sourceTokens_append, retained, List.filter_append,
      items_eq]
    exact parse_append arities lacking _
  have count :
      (items.flatMap Item.parts).length = (retained (sourceTokens reader filenames)).length := by
    rw [items_eq] at lacking
    rw [items_eq, length_parts_parse, lacking, Nat.add_zero]
  have agree : ∀ part ∈ items.flatMap Item.parts, ∀ token ∈ part.references,
      AgreeOn image.labels extended.labels token :=
    fun part inParts token refers => loads.agreeOn_append loadsMore arities apart inParts refers
  have records : ∀ index < (retained (sourceTokens reader filenames)).length,
      ∃ entry,
        image.lines.atAddress? (codeStart + index) = some entry ∧
          extended.lines.atAddress? (codeStart + index) = some entry := by
    intro index inside
    have recordedMore := loadsMore.lines_eq
    rw [List.flatMap_append] at recordedMore
    apply exists_atAddress?_append loads.lines_eq recordedMore
    rw [rawTokens_sourceLines]
    exact inside
  constructor
  case words =>
    intro index inside
    exact loads.exists_word_append loadsMore longer
      (fun part inParts => Part.number_congr (agree part inParts)) (count.symm ▸ inside)
  case lines => exact records
  case labels =>
    intro query absent
    exact loads.find?_append loadsMore absent
  case entry => exact loads.entry_append loadsMore
  case warnings =>
    refine ⟨_, loads.warnings_eq, ?_⟩
    apply loads.located_append loadsMore longer
    · rw [items_eq]
      exact consecutive_parse arities codeStart _
    · intro part inParts
      exact Part.concerns_congr (agree part inParts)
    · intro index inside
      rcases records index (count ▸ inside) with ⟨entry, found, foundMore⟩
      rw [Image.placeAt, Image.placeAt, found, foundMore]

/-- A program that ends with its entry point, and a file behind it that defines a label. -/
def continuedProgram : SourceReader :=
  .ofContents fun filename =>
    if filename = "a" then .ok (Text.Utf8.encode "mov &u b ~ c\n7 entry")
    else if filename = "b" then .ok (Text.Utf8.encode "push y\n$y nop")
    else .error .noSuchFile

theorem head?_toList_append
    {front : String} {first : Char} (found : front.toList.head? = some first) (back : String) :
    (front ++ back).toList.head? = some first := by
  rw [String.toList_append, List.head?_append, found, Option.some_or]

/-- The mnemonics of the machine, and so warnings of missing operands, start with a small letter. -/
theorem not_reportsMissingOperands_standard
    {message : String} (upper : message.toList.head?.map Char.isLower = some false) :
    ¬ ReportsMissingOperands Catalog.standard message := by
  have lower : ∀ operation ∈ Catalog.standard,
      operation.name.toList.head?.map Char.isLower = some true := by
    decide +kernel
  rintro ⟨operation, listed, available, rfl⟩
  rcases Option.map_eq_some_iff.mp (lower operation listed) with ⟨first, found, isLower⟩
  have head :
      (Concern.missingOperands operation.name operation.arity available).message.toList.head? =
        some first := by
    apply head?_toList_append
    apply head?_toList_append
    apply head?_toList_append
    exact head?_toList_append found _
  rw [head, Option.map_some, isLower] at upper
  cases upper

theorem continuesProgram_continuedProgram :
    Catalog.standard.HasArities ∧
      ∃ assembler image extended,
        Assembler.create Catalog.standard 40 = .ok assembler ∧
          (assembler.load continuedProgram ["a"]).1 = .ok image ∧
            (assembler.load continuedProgram (["a"] ++ ["b"])).1 = .ok extended ∧
              image.warnings.toList =
                  [ ⟨"Undefined label: u", ⟨"a", 1⟩⟩,
                    ⟨"Entry point 13 is past the end of the code (13)", .unknown⟩ ] ∧
                (∀ warning ∈ image.warnings,
                  ¬ ReportsMissingOperands Catalog.standard warning.message) ∧
                  ContinuesProgram continuedProgram ["a"] ["b"] image extended := by
  have created : Assembler.create Catalog.standard 40 = .ok ⟨Catalog.standard, 40, none⟩ := rfl
  have succeeds :
      ((Assembler.mk Catalog.standard 40 none).load continuedProgram ["a"]).1.toOption.map
          (fun image => image.warnings.toList) =
        some
          [ ⟨"Undefined label: u", ⟨"a", 1⟩⟩,
            ⟨"Entry point 13 is past the end of the code (13)", .unknown⟩ ] := by
    decide +kernel
  have succeedsMore :
      ((Assembler.mk Catalog.standard 40 none).load continuedProgram
        (["a"] ++ ["b"])).1.toOption.isSome = true := by
    decide +kernel
  have apart : ∀ definition ∈ sourceTokens continuedProgram ["b"],
      Token.role definition = .definition →
        ∀ token ∈ retained (sourceTokens continuedProgram ["a"]),
          Label.normalize definition ≠ Label.normalize token ∧
            Label.normalize definition ≠ Label.normalize (String.ofList token.toList.tail) := by
    decide +kernel
  rcases Option.map_eq_some_iff.mp succeeds with ⟨image, found, warnings⟩
  rcases Option.isSome_iff_exists.mp succeedsMore with ⟨extended, foundMore⟩
  have loaded := eq_ok_of_toOption found
  have loadedMore := eq_ok_of_toOption foundMore
  have complete : ∀ warning ∈ image.warnings,
      ¬ ReportsMissingOperands Catalog.standard warning.message := by
    intro warning member
    rw [← Array.mem_toList_iff, warnings] at member
    apply not_reportsMissingOperands_standard
    revert warning
    decide
  exact ⟨Catalog.hasArities_standard, _, image, extended, created, loaded, loadedMore, warnings,
    complete,
    continuesProgram_of_load Catalog.hasArities_standard created loaded loadedMore complete
      apart⟩

end Program

end WordMachine
