import WordMachine.Proofs.Program.Load

/-!
# Labels and the entry point

A label is bound to the address of the token behind its last definition, and
the entry point to that of the token behind the last directive.  All references
to a label, wherever they stand, are encoded with the one address it ends up
with.

The catalog may be any.  An item never takes up fewer words than the walk moves
on, also when the walk goes back, so every address which the first pass hands
out lies inside the code or at its end.
-/

namespace WordMachine

theorem Token.role_eq_entry_iff {token : String} :
    Token.role token = .entry ↔ token = Token.entryKeyword := by
  simp only [Token.role]
  constructor
  · intro entry
    split at entry
    · cases entry
    · split at entry
      · assumption
      · cases entry
  · rintro rfl
    decide

theorem Label.mem_of_mem_normalize
    {name : String} {character : Char} (member : character ∈ (normalize name).toList) :
    character ∈ name.toList := by
  have inside : character ∈ dropMarker name.toList := by
    rw [normalize, String.toList_ofList, dropColon] at member
    split at member
    · exact List.dropLast_subset _ member
    · exact member
  cases characters : name.toList with
  | nil =>
      rw [characters] at inside
      exact inside
  | cons first rest =>
      rw [characters, dropMarker] at inside
      split at inside
      · exact List.mem_cons_of_mem first inside
      · exact inside

namespace LabelTable

theorem find?_withRegisters (query : String) :
    withRegisters.find? query = registers.lookup (Label.normalize query) := by
  have entries : withRegisters.bindings.entries = registers := by decide
  rw [find?, Roster.get?, entries]

/-- If every bound address is positive, then the labels resolved to zero are those not bound. -/
theorem resolve_eq_zero_iff
    {table : LabelTable} (positive : ∀ item ∈ table.items, 1 ≤ item.2) (query : String) :
    table.resolve query = unresolvedAddress ↔ table.contains query = false := by
  rw [← find?_eq_none_iff, resolve]
  cases found : table.find? query with
  | none => simp
  | some address =>
      have bound := positive _ (Roster.mem_of_get? found)
      simp only [Option.getD_some, reduceCtorEq, iff_false, unresolvedAddress]
      intro zero
      rw [zero] at bound
      omega

end LabelTable

namespace Program

/-! ## The tables after the first pass -/

theorem find?_surveyed
    (capacity : Int) (reader : SourceReader) (filenames : List String) (query : String) :
    (surveyed capacity reader filenames).image.labels.find? query =
      ((sourceTokens reader filenames).foldl Workbench.absorb
        (Workbench.initial capacity)).image.labels.find? query := by
  rcases surveyed_eq capacity reader filenames with ⟨lines, same⟩
  rw [same]
  rfl

theorem entry_surveyed
    (capacity : Int) (reader : SourceReader) (filenames : List String) :
    (surveyed capacity reader filenames).image.entry =
      ((sourceTokens reader filenames).foldl Workbench.absorb
        (Workbench.initial capacity)).image.entry := by
  rcases surveyed_eq capacity reader filenames with ⟨lines, same⟩
  rw [same]
  rfl

/-! ## References -/

/--
A part refers to a label: by a mark in front of any spelling of its name, or by
the bare name of a label that is bound, which only operands may use.
-/
def Part.RefersTo (labels : LabelTable) (query : String) : Part → Prop
  | .mnemonic _ _ _ => False
  | .operand token =>
      match Token.shape token with
      | .reference name => Label.normalize name = Label.normalize query
      | .address name => Label.normalize name = Label.normalize query
      | .plain =>
          Label.normalize token = Label.normalize query ∧ labels.contains token = true
  | .padding => False
  | .bareWord token =>
      match Token.shape token with
      | .address name => Label.normalize name = Label.normalize query
      | _ => False

theorem Part.number_of_refersTo
    {labels : LabelTable} (positive : ∀ item ∈ labels.items, 1 ≤ item.2)
    {query : String} {part : Part} (refers : part.RefersTo labels query) :
    part.number labels = labels.resolve query := by
  cases part with
  | mnemonic index operation operands => cases refers
  | padding => cases refers
  | operand token =>
      simp only [RefersTo] at refers
      simp only [Part.number, Part.value, Valuation.ofOperand]
      cases shape : Token.shape token with
      | reference name =>
          rw [shape] at refers
          exact LabelTable.resolve_congr refers
      | address name =>
          rw [shape] at refers
          exact LabelTable.resolve_congr refers
      | plain =>
          rw [shape] at refers
          have bound : labels.resolve token ≠ unresolvedAddress := by
            intro zero
            rw [LabelTable.resolve_eq_zero_iff positive, refers.2] at zero
            cases zero
          simp only [if_neg bound]
          exact LabelTable.resolve_congr refers.1
  | bareWord token =>
      simp only [RefersTo] at refers
      simp only [Part.number, Part.value, Valuation.ofBareWord]
      cases shape : Token.shape token with
      | reference name => simp [shape] at refers
      | address name =>
          rw [shape] at refers
          exact LabelTable.resolve_congr refers
      | plain => simp [shape] at refers

/-! ## Resolution -/

/-- The token defines the label that a query spells. -/
def Defines (query token : String) : Prop :=
  Token.role token = .definition ∧ Label.normalize token = Label.normalize query

/-- The labels of an image are those of the raw tokens. -/
structure ResolvesLabels (raw : List String) (image : Image) : Prop where
  /-- The last definition binds a label to the address of the next retained token. -/
  last_definition : ∀ (query : String) (earlier : List String) (definition : String)
    (later : List String), raw = earlier ++ definition :: later →
      Defines query definition → (∀ token ∈ later, ¬ Defines query token) →
        image.labels.resolve query = codeStart + (retained earlier).length
  /-- A label without definition is a register or unresolved. -/
  no_definition : ∀ query : String, (∀ token ∈ raw, ¬ Defines query token) →
    image.labels.resolve query =
      (registers.lookup (Label.normalize query)).getD unresolvedAddress
  resolve_eq_zero_iff : ∀ query : String,
    image.labels.resolve query = 0 ↔ image.labels.contains query = false
  address_bounds : ∀ item ∈ image.labels.items, 1 ≤ item.2 ∧ item.2 ≤ image.length

/-- The entry point of an image is the one that the raw tokens set. -/
structure ResolvesEntry (raw : List String) (image : Image) : Prop where
  last_directive : ∀ earlier later : List String,
    raw = earlier ++ Token.entryKeyword :: later → Token.entryKeyword ∉ later →
      image.entry = codeStart + (retained earlier).length
  no_directive : Token.entryKeyword ∉ raw → image.entry = codeStart
  bounds : codeStart ≤ image.entry ∧ image.entry ≤ image.length

/-- Every reference among the items is encoded with the one address of its label. -/
structure ResolvesReferences (items : List Item) (image : Image) : Prop where
  length_eq : image.length = codeStart + (items.flatMap Item.parts).length
  word_of_reference : ∀ (index : Nat) (part : Part) (query : String),
    (items.flatMap Item.parts)[index]? = some part → part.RefersTo image.labels query →
      image.code[9 + index]? = some (image.labels.resolve query)

namespace Loads

variable {catalog : Catalog} {capacity : Int} {reader : SourceReader}
  {filenames : List String} {items : List Item} {image : Image}

theorem label_bounds (loads : Loads catalog capacity reader filenames items image) :
    ∀ item ∈ image.labels.items, 1 ≤ item.2 ∧ item.2 ≤ image.length := by
  intro item member
  rw [loads.labels_eq] at member
  rcases (addressed_surveyed capacity reader filenames).label_bounds item member with
    ⟨positive, inside⟩
  exact ⟨positive, Int.le_trans inside loads.nextAddress_le⟩

/-- Names of labels come from tokens or from registers, so that no blank breaks them. -/
theorem isUnbroken_of_mem_names
    (loads : Loads catalog capacity reader filenames items image)
    {name : String} (member : name ∈ image.labels.names) :
    Text.IsUnbroken name := by
  rcases surveyed_eq capacity reader filenames with ⟨lines, same⟩
  rw [loads.labels_eq, same] at member
  rcases Workbench.mem_names_foldl_absorb member with register | ⟨token, inSource, rfl⟩
  · have unbroken :
        LabelTable.withRegisters.names.all
          (fun name => name.toList.all (fun character => !Text.isBlank character)) = true := by
      decide +kernel
    simp only [List.all_eq_true, Bool.not_eq_true'] at unbroken
    exact unbroken name register
  · intro character inName
    exact (isWord_of_mem_sourceTokens inSource).isUnbroken character
      (Label.mem_of_mem_normalize inName)

theorem resolvesLabels (loads : Loads catalog capacity reader filenames items image) :
    ResolvesLabels (sourceTokens reader filenames) image where
  last_definition := by
    intro query earlier definition later split ⟨role, same⟩ last
    have found :=
      @Workbench.find?_foldl_absorb_of_last earlier later definition query
        (Workbench.initial capacity) role same
        (fun token member defined other => last token member ⟨defined, other⟩)
    rw [← split] at found
    rw [loads.labels_eq, LabelTable.resolve, find?_surveyed, found]
    rfl
  no_definition := by
    intro query absent
    have found :=
      Workbench.find?_foldl_absorb_of_absent (Workbench.initial capacity)
        (fun token member defined other => absent token member ⟨defined, other⟩)
    rw [loads.labels_eq, LabelTable.resolve, find?_surveyed, found]
    exact congrArg (Option.getD · unresolvedAddress) (LabelTable.find?_withRegisters query)
  resolve_eq_zero_iff := by
    apply LabelTable.resolve_eq_zero_iff
    intro item member
    exact (loads.label_bounds item member).1
  address_bounds := loads.label_bounds

theorem resolvesEntry (loads : Loads catalog capacity reader filenames items image) :
    ResolvesEntry (sourceTokens reader filenames) image where
  last_directive := by
    intro earlier later split last
    have found :=
      @Workbench.entry_foldl_absorb_of_last earlier later Token.entryKeyword
        (Workbench.initial capacity) (Token.role_eq_entry_iff.mpr rfl)
        (fun token member role => last (Token.role_eq_entry_iff.mp role ▸ member))
    rw [← split] at found
    rw [loads.entry_eq, entry_surveyed, found]
    rfl
  no_directive := by
    intro absent
    rw [loads.entry_eq, entry_surveyed]
    apply Workbench.entry_foldl_absorb_of_absent
    intro token member role
    exact absent (Token.role_eq_entry_iff.mp role ▸ member)
  bounds := loads.entry_bounds

theorem resolve_fits
    (loads : Loads catalog capacity reader filenames items image) (query : String) :
    Word.Fits (image.labels.resolve query) := by
  rw [LabelTable.resolve]
  cases found : image.labels.find? query with
  | none => decide
  | some address =>
      have bounds := loads.label_bounds _ (Roster.mem_of_get? found)
      have inside := loads.sound.length_le_capacity
      have small := loads.capacity_le
      rw [loads.capacity_eq] at inside
      simp only [Option.getD_some, Word.Fits, maxCapacity] at *
      omega

theorem resolvesReferences (loads : Loads catalog capacity reader filenames items image) :
    ResolvesReferences items image where
  length_eq := loads.length_eq
  word_of_reference := by
    intro index part query here refers
    have number : part.number image.labels = image.labels.resolve query :=
      Part.number_of_refersTo (fun item member => (loads.label_bounds item member).1) refers
    rw [loads.code_part here, number, Word.wrap_of_fits (loads.resolve_fits query)]

end Loads

/--
A load resolves every label and the entry point by their last definitions, and
encodes each reference of the program with the address its label ends up with.
-/
theorem resolves_of_load
    {catalog : Catalog} {capacity : Int} {assembler : Assembler}
    (created : Assembler.create catalog capacity = .ok assembler)
    {reader : SourceReader} {filenames : List String} {image : Image}
    (loaded : (assembler.load reader filenames).1 = .ok image) :
    ResolvesLabels (sourceTokens reader filenames) image ∧
      ResolvesEntry (sourceTokens reader filenames) image ∧
        ∃ items,
          Walk catalog ⟨codeStart, (retained (sourceTokens reader filenames)).toArray⟩
              codeStart items ∧
            ResolvesReferences items image := by
  rcases (load_eq_ok_iff created).mp loaded with ⟨items, loads⟩
  have walk := loads.walk
  rw [tokens_surveyed] at walk
  exact ⟨loads.resolvesLabels, loads.resolvesEntry, items, walk, loads.resolvesReferences⟩

/-- References before, between and after two definitions of a label that shadows a register. -/
def shadowingProgram : SourceReader :=
  singleSource "a" "mov &a entry *a $a: 1
push a $a &$a b entry"

theorem resolves_shadowingProgram :
    ∃ assembler image,
      Assembler.create Catalog.standard 40 = .ok assembler ∧
        (assembler.load shadowingProgram ["a"]).1 = .ok image ∧
          ResolvesLabels
            ["mov", "&a", "entry", "*a", "$a:", "1", "push", "a", "$a", "&$a", "b", "entry"]
            image ∧
            ResolvesEntry
              ["mov", "&a", "entry", "*a", "$a:", "1", "push", "a", "$a", "&$a", "b", "entry"]
              image ∧
              ∃ items,
                Walk Catalog.standard
                    ⟨codeStart, #["mov", "&a", "*a", "1", "push", "a", "&$a", "b"]⟩
                    codeStart items ∧
                  ResolvesReferences items image := by
  have created : Assembler.create Catalog.standard 40 = .ok ⟨Catalog.standard, 40, none⟩ := rfl
  have tokens :
      sourceTokens shadowingProgram ["a"] =
        ["mov", "&a", "entry", "*a", "$a:", "1", "push", "a", "$a", "&$a", "b", "entry"] := by
    decide +kernel
  have succeeds :
      ((Assembler.mk Catalog.standard 40 none).load shadowingProgram ["a"]).1.toOption.isSome = true := by
    decide +kernel
  rcases Option.isSome_iff_exists.mp succeeds with ⟨image, found⟩
  have loaded := eq_ok_of_toOption found
  have resolves := resolves_of_load created loaded
  rw [tokens] at resolves
  exact ⟨_, image, created, loaded, resolves⟩

end Program

end WordMachine
