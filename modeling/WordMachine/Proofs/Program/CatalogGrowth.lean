import WordMachine.Proofs.Listing
import WordMachine.Proofs.Program.Outcome

/-!
# Catalogs that grow

A catalog may grow at its end.  Operations keep their positions then, so words
that were instructions before are read as the same instructions, and mnemonics
that were found before are found at the same place.  A program changes its
meaning only where a new mnemonic is a bare word of the program: operands are
never looked up in the catalog.  Both passes and listings inherit this.
-/

namespace WordMachine

namespace Catalog

variable {catalog : Catalog} {name : String}

theorem find?_append_of_some
    {entry : Nat × Operation} (listed : catalog.find? name = some entry) (more : Catalog) :
    (catalog ++ more).find? name = some entry := by
  rcases entry with ⟨index, operation⟩
  rcases find?_eq_some_iff.mp listed with ⟨here, named, first⟩
  have inside := (List.getElem?_eq_some_iff.mp here).1
  apply find?_eq_some_iff.mpr
  refine ⟨?_, named, ?_⟩
  · rw [List.getElem?_append_left inside]
    exact here
  · intro earlier below other there
    rw [List.getElem?_append_left (Nat.lt_trans below inside)] at there
    exact first earlier below other there

theorem find?_eq_none_iff :
    catalog.find? name = none ↔ ∀ operation ∈ catalog, operation.name ≠ name := by
  simp only [find?]
  cases found : catalog.findIdx? (fun operation => operation.name == name) with
  | none => simpa using found
  | some index =>
      rcases List.findIdx?_eq_some_iff_getElem.mp found with ⟨inside, named, _⟩
      simp only [List.getElem?_eq_getElem inside, Option.map_some, reduceCtorEq, false_iff]
      intro absent
      exact absent _ (List.getElem_mem inside) (by simpa using named)

theorem find?_append_of_none
    {more : Catalog} (unlisted : catalog.find? name = none)
    (absent : ∀ operation ∈ more, operation.name ≠ name) :
    (catalog ++ more).find? name = none := by
  rw [find?_eq_none_iff] at unlisted ⊢
  exact List.forall_mem_append.mpr ⟨unlisted, absent⟩

end Catalog

/-! ## The second pass -/

namespace Program

/-- No bare word among the items is the mnemonic of one of the operations. -/
def KeepsBareWords (more : Catalog) (items : List Item) : Prop :=
  ∀ item ∈ items, ∀ token, item.content = .bareWord token →
    ∀ operation ∈ more, operation.name ≠ token

end Program

namespace Assembly

open Program Workbench

/-- An item is assembled alike if it is no bare word that became a mnemonic. -/
theorem assembleItem_append
    {catalog more : Catalog} {address : Int} {item : Item} {bench : Workbench}
    (found : itemAt? catalog bench.tokens address = some item)
    (kept : ∀ token, item.content = .bareWord token →
      ∀ operation ∈ more, operation.name ≠ token) :
    assembleItem (catalog ++ more) address bench = assembleItem catalog address bench := by
  simp only [itemAt?] at found
  cases fetched : bench.tokens.get? address with
  | none =>
      rw [fetched] at found
      cases found
  | some token =>
      rw [fetched] at found
      have fetches : fetch address bench = .ok token bench :=
        fetch_eq_ok_iff.mpr ⟨fetched, rfl⟩
      have sameEntry : (catalog ++ more).find? token = catalog.find? token := by
        cases listed : catalog.find? token with
        | some entry => exact Catalog.find?_append_of_some listed more
        | none =>
            simp only [listed, Option.some.injEq] at found
            subst found
            exact Catalog.find?_append_of_none listed (kept token rfl)
      rw [assembleItem, assembleItem, bind_of_ok fetches, bind_of_ok fetches, sameEntry]

/--
The walk is the same for the catalog that has grown, also if it fails on its way.
The induction follows the reading by the smaller catalog.
-/
theorem assembleFrom_append
    {catalog more : Catalog} {address : Int} {items : List Item} {bench : Workbench}
    (sound : bench.Sound) (walk : Walk catalog bench.tokens address items)
    (kept : KeepsBareWords more items) :
    assembleFrom (catalog ++ more) bench.nextAddress address bench =
      assembleFrom catalog bench.nextAddress address bench := by
  generalize stream_eq : bench.tokens = stream at walk
  generalize stop_eq : bench.nextAddress = stop
  induction walk generalizing bench with
  | done atEnd =>
      rw [← stream_eq, ← Workbench.nextAddress, stop_eq] at atEnd
      rw [assembleFrom_of_le atEnd, assembleFrom_of_le atEnd]
  | @step address item rest inside here tail tailHolds =>
      rw [KeepsBareWords, List.forall_mem_cons] at kept
      rw [← stream_eq] at here inside
      have insideHere : address < bench.nextAddress := inside
      have before : address < stop := stop_eq ▸ insideHere
      have sameItem := assembleItem_append here kept.1
      rw [assembleFrom_of_lt before, assembleFrom_of_lt before]
      cases step : assembleItem catalog address bench with
      | error fault after =>
          rw [bind_of_error (sameItem.trans step), bind_of_error step]
      | ok next after =>
          rw [bind_of_ok (sameItem.trans step), bind_of_ok step]
          -- The walk goes on behind the item, with the bench that the item has left.
          rcases (assembleItem_eq_ok_iff sound insideHere).mp step with ⟨found, foundHere, emits⟩
          rw [here, Option.some.injEq] at foundHere
          subst foundHere
          rcases emits.carries sound with ⟨afterSound, same, _⟩
          rw [emits.next_eq]
          apply tailHolds afterSound kept.2
          · rw [same.tokens_eq, stream_eq]
          · rw [← stop_eq, Workbench.nextAddress, Workbench.nextAddress, same.tokens_eq]

theorem assemble_append
    {catalog more : Catalog} {items : List Item} {bench : Workbench} (sound : bench.Sound)
    (walk : Walk catalog bench.tokens bench.tokens.base items)
    (kept : KeepsBareWords more items) :
    assemble (catalog ++ more) bench = assemble catalog bench := by
  have sameWalk := assembleFrom_append sound walk kept
  simp only [assemble, bind, EStateM.bind, sameWalk]

end Assembly

namespace Program

/-- Loads do not depend on operations that no bare word of the program names. -/
theorem load_append
    {catalog more : Catalog} (arities : catalog.HasArities)
    {capacity : Int} (large : codeStart < capacity) (small : capacity ≤ maxCapacity)
    {reader : SourceReader} {filenames : List String}
    (kept : KeepsBareWords more
      (parse catalog codeStart (retained (sourceTokens reader filenames)))) :
    ((Assembler.mk (catalog ++ more) capacity none).load reader filenames).1 =
      ((Assembler.mk catalog capacity none).load reader filenames).1 := by
  have sameRun :
      Assembly.run (catalog ++ more) reader filenames (Workbench.initial capacity) =
        Assembly.run catalog reader filenames (Workbench.initial capacity) := by
    rw [Assembly.run, Assembly.run]
    cases reading : Assembly.readSources reader filenames (Workbench.initial capacity) with
    | error fault after =>
        rw [Assembly.bind_of_error reading, Assembly.bind_of_error reading]
    | ok _ after =>
        rcases Assembly.readSources_eq_ok_iff.mp reading with ⟨_, rfl⟩
        have walk := walk_surveyed arities capacity reader filenames
        have base : (surveyed capacity reader filenames).tokens.base = codeStart := by
          rw [tokens_surveyed]
        rw [Assembly.bind_of_ok reading, Assembly.bind_of_ok reading]
        exact Assembly.assemble_append (sound_surveyed large small reader filenames)
          (base.symm ▸ walk) kept
  simp only [Assembler.load, sameRun]
  cases Assembly.run catalog reader filenames (Workbench.initial capacity) with
  | ok _ bench => rfl
  | error fault bench => rfl

end Program

/-! ## Listings -/

namespace Listing

variable {image : Image} {catalog : Catalog} {address : Int}

theorem decodeAt_append_of_some
    {decoded : Operation × List OperandKind}
    (decodes : decodeAt image catalog address = .ok (some decoded)) (more : Catalog) :
    decodeAt image (catalog ++ more) address = .ok (some decoded) := by
  simp only [decodeAt] at decodes ⊢
  cases here : SignedIndex.resolve? image.code.size address >>= (image.code[·]?) with
  | none =>
      rw [here] at decodes
      cases decodes
  | some word =>
      simp only [here] at decodes ⊢
      by_cases negative : word < 0
      · rw [if_pos negative] at decodes
        cases decodes
      · rw [if_neg negative] at decodes ⊢
        cases listed : catalog[word.toNat % 65536]? with
        | none =>
            rw [listed] at decodes
            cases decodes
        | some operation =>
            have inside := (List.getElem?_eq_some_iff.mp listed).1
            rw [List.getElem?_append_left inside, listed]
            rw [listed] at decodes
            exact decodes

theorem contentAt_append_of_instruction
    {operation : Operation} {operands : List (OperandKind × Int)}
    (shown : contentAt image catalog address = .ok (.instruction operation operands))
    (more : Catalog) :
    contentAt image (catalog ++ more) address = .ok (.instruction operation operands) := by
  simp only [contentAt] at shown ⊢
  cases decoded : decodeAt image catalog address with
  | error fault =>
      rw [decoded] at shown
      cases shown
  | ok found =>
      cases found with
      | none =>
          rw [decoded] at shown
          simp only at shown
          split at shown
          · cases shown
          · cases shown
      | some instruction =>
          rw [decodeAt_append_of_some decoded more]
          rw [decoded] at shown
          exact shown

theorem Shows.append
    {items : List Item} (shows : Shows image catalog address items)
    (instructions : ∀ item ∈ items, item.IsInstruction) (more : Catalog) :
    Shows image (catalog ++ more) address items := by
  induction items generalizing address with
  | nil => exact shows
  | cons item rest tailHolds =>
      rcases shows with ⟨before, place, shown, tail⟩
      rw [List.forall_mem_cons] at instructions
      rcases instructions with ⟨⟨operation, operands, content⟩, others⟩
      rw [content] at shown
      refine ⟨before, place, ?_, tailHolds tail others⟩
      rw [content]
      exact contentAt_append_of_instruction shown more

/-- A listing that shows instructions only does not change when the catalog grows. -/
theorem render_append
    (arities : catalog.HasArities) (bound : image.length ≤ image.code.size)
    (instructions : ∀ items, Listing.items image catalog = .ok items →
      ∀ item ∈ items, item.IsInstruction)
    (more : Catalog) :
    render image (catalog ++ more) = render image catalog := by
  rcases exists_shows arities bound 9 with ⟨items, shows⟩
  have showsMore := shows.append (instructions items (items_of_shows shows)) more
  rw [render, render, entries_of_shows shows, entries_of_shows showsMore]

end Listing

namespace Program

/--
A catalog may grow at its end.  Programs of which no bare word is a new mnemonic
load as before, to the same image or with the same fault, and listings of
instructions only stay as they are.
-/
theorem load_and_render_append
    {catalog : Catalog} (arities : catalog.HasArities) (more : Catalog) :
    (∀ (capacity : Int) (assembler extended : Assembler),
      Assembler.create catalog capacity = .ok assembler →
        Assembler.create (catalog ++ more) capacity = .ok extended →
          ∀ (reader : SourceReader) (filenames : List String),
            KeepsBareWords more
                (parse catalog codeStart (retained (sourceTokens reader filenames))) →
              (extended.load reader filenames).1 = (assembler.load reader filenames).1) ∧
      ∀ image : Image, image.length ≤ image.code.size →
        (∀ items, Listing.items image catalog = .ok items → ∀ item ∈ items, item.IsInstruction) →
          Listing.render image (catalog ++ more) = Listing.render image catalog := by
  constructor
  · intro capacity assembler extended created createdMore reader filenames kept
    rcases create_eq_ok_iff.mp created with ⟨large, small, rfl⟩
    rcases create_eq_ok_iff.mp createdMore with ⟨_, _, rfl⟩
    exact load_append arities large small kept
  · intro image bound instructions
    exact Listing.render_append arities bound instructions more

/-- Operations of which one shares its name with a label and one with an old operation. -/
def laterOperations : Catalog :=
  [⟨"x", 1⟩, ⟨"mov", 0⟩]

/-- A program with a bare word and with an operand that later becomes a mnemonic. -/
def earlyProgram : SourceReader :=
  singleSource "a" "$x mov x 7 -5"

/-- An image whose code is the instruction `mov a 7`. -/
def movImage : Image :=
  { Image.blank 12 with
    length := 12
    code := #[0, 0, 0, 0, 0, 0, 0, 0, 0, 1179650, 1, 7]
    labels := .withRegisters }

/-- The listing of that image. -/
def movText : String :=
  "~ Entry point: 9\n~ Code length: 12 words\n\n    9: mov a 7"

theorem load_and_render_laterOperations :
    Catalog.standard.HasArities ∧
      (∃ assembler extended image,
        Assembler.create Catalog.standard 40 = .ok assembler ∧
          Assembler.create (Catalog.standard ++ laterOperations) 40 = .ok extended ∧
            KeepsBareWords laterOperations
                (parse Catalog.standard codeStart (retained (sourceTokens earlyProgram ["a"]))) ∧
              (assembler.load earlyProgram ["a"]).1 = .ok image ∧
                (extended.load earlyProgram ["a"]).1 = .ok image) ∧
        movImage.length ≤ movImage.code.size ∧
          (∀ items, Listing.items movImage Catalog.standard = .ok items →
            ∀ item ∈ items, item.IsInstruction) ∧
            Listing.render movImage Catalog.standard = .ok movText ∧
              Listing.render movImage (Catalog.standard ++ laterOperations) = .ok movText := by
  have created : Assembler.create Catalog.standard 40 = .ok ⟨Catalog.standard, 40, none⟩ := rfl
  have createdMore :
      Assembler.create (Catalog.standard ++ laterOperations) 40 =
        .ok ⟨Catalog.standard ++ laterOperations, 40, none⟩ :=
    rfl
  have parsed :
      parse Catalog.standard codeStart (retained (sourceTokens earlyProgram ["a"])) =
        [⟨9, .instruction 2 ⟨"mov", 2⟩ ["x", "7"]⟩, ⟨12, .bareWord "-5"⟩] := by
    decide +kernel
  have kept : KeepsBareWords laterOperations
      (parse Catalog.standard codeStart (retained (sourceTokens earlyProgram ["a"]))) := by
    rw [parsed]
    intro item member token bare
    simp only [List.mem_cons, List.not_mem_nil, or_false] at member
    rcases member with rfl | rfl
    · cases bare
    · cases bare
      decide
  have succeeds :
      ((Assembler.mk Catalog.standard 40 none).load earlyProgram ["a"]).1.toOption.isSome =
        true := by
    decide +kernel
  have listed :
      Listing.items movImage Catalog.standard =
        .ok [⟨9, .instruction ⟨"mov", 2⟩ [(.memory, 1), (.literal, 7)]⟩] :=
    eq_ok_of_toOption (by decide +kernel)
  have instructions : ∀ items, Listing.items movImage Catalog.standard = .ok items →
      ∀ item ∈ items, item.IsInstruction := by
    intro items found item member
    rw [listed] at found
    cases found
    rw [List.mem_singleton] at member
    subst member
    exact ⟨_, _, rfl⟩
  rcases Option.isSome_iff_exists.mp succeeds with ⟨image, found⟩
  have loaded := eq_ok_of_toOption found
  rcases load_and_render_append Catalog.hasArities_standard laterOperations with
    ⟨loads, renders⟩
  have loadedMore := loads 40 _ _ created createdMore earlyProgram ["a"] kept
  have rendered : Listing.render movImage Catalog.standard = .ok movText :=
    eq_ok_of_toOption (by decide +kernel)
  have renderedMore := renders movImage (by decide) instructions
  exact ⟨Catalog.hasArities_standard,
    ⟨_, _, image, created, createdMore, kept, loaded, loadedMore.trans loaded⟩,
    by decide, instructions, rendered, renderedMore.trans rendered⟩

end Program

end WordMachine
