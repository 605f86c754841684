import WordMachine.FileSystem
import WordMachine.Proofs.Numeral
import WordMachine.Proofs.Program.Labels
import WordMachine.Proofs.Program.Lines

/-!
# Warnings

Which concerns a part of a program gives rise to is stated here on the tokens
and the label table alone.  The warnings of a load are these concerns in the
order of the parts, each with the line on which the token of its part was read,
and behind them the one about the entry point if there is cause for it.

The second pass looks lines up by address.  Parts and retained tokens stand at
the same places, so that the address of a part leads to the line of its token.
-/

namespace WordMachine

theorem FileSystem.reader_empty_name (files : FileSystem) :
    files.reader "" = .error .noSuchFile :=
  rfl

namespace Program

/-! ## Concerns -/

/-- The concern about a marked reference to a label. -/
def labelConcerns (labels : LabelTable) (name : String) : List Concern :=
  if labels.contains name then [] else [.undefinedLabel name]

/-- The concern about a token that has to be a number. -/
def numberConcerns (token : String) : List Concern :=
  if Numeral.IsNumeral token then [] else [.invalidNumber token]

/-- The concerns about a part of a program. -/
def Part.concerns (labels : LabelTable) : Part → List Concern
  | .mnemonic _ operation operands =>
      if (operands.length : Int) < operation.arity then
        [.missingOperands operation.name operation.arity operands.length]
      else
        []
  | .operand token =>
      match Token.shape token with
      | .reference name => labelConcerns labels name
      | .address name => labelConcerns labels name
      | .plain => if labels.contains token then [] else numberConcerns token
  | .padding => []
  | .bareWord token =>
      match Token.shape token with
      | .address name => labelConcerns labels name
      | _ => if labels.contains token then [.bareLabel token] else numberConcerns token

/-- The concern about the entry point of an image. -/
def entryConcerns (image : Image) : List Concern :=
  if image.entry ≠ codeStart ∧ image.length ≤ image.entry then
    [.entryPastEnd image.entry image.length]
  else
    []

/-- Concerns as warnings about a line. -/
def warningsAt (source : SourceLine) (concerns : List Concern) : List Diagnostic :=
  concerns.map (fun concern => ⟨concern.message, source⟩)

/-- The remarks about parts that stand one behind the other from an address on. -/
def remarksFrom (labels : LabelTable) (address : Int) : List Part → List Remark
  | [] => []
  | part :: rest =>
      (part.concerns labels).map (fun concern => ⟨concern, address⟩) ++
        remarksFrom labels (address + 1) rest

theorem remarksFrom_append
    (labels : LabelTable) (address : Int) (parts more : List Part) :
    remarksFrom labels address (parts ++ more) =
      remarksFrom labels address parts ++ remarksFrom labels (address + parts.length) more := by
  induction parts generalizing address with
  | nil => simp [remarksFrom]
  | cons part rest tailHolds =>
      have next : address + 1 + (rest.length : Int) = address + (rest.length + 1 : Nat) := by
        omega
      rw [List.cons_append, remarksFrom, remarksFrom, tailHolds, List.length_cons, next,
        List.append_assoc]

theorem remarksFrom_of_silent
    {labels : LabelTable} {parts : List Part}
    (silent : ∀ part ∈ parts, part.concerns labels = []) (address : Int) :
    remarksFrom labels address parts = [] := by
  induction parts generalizing address with
  | nil => rfl
  | cons part rest tailHolds =>
      rw [List.forall_mem_cons] at silent
      rw [remarksFrom, silent.1, tailHolds silent.2]
      rfl

/-! ## Remarks of items -/

section

variable {labels : LabelTable} (positive : ∀ item ∈ labels.items, 1 ≤ item.2)

include positive

theorem remarksOf_ofLabel (name : String) (address : Int) :
    remarksOf (.ok (Valuation.ofLabel labels name)) address =
      (labelConcerns labels name).map (fun concern => ⟨concern, address⟩) := by
  have unresolved := LabelTable.resolve_eq_zero_iff positive name
  cases bound : labels.contains name with
  | true =>
      have resolved : labels.resolve name ≠ unresolvedAddress := by
        rw [ne_eq, unresolved, bound]
        decide
      simp [remarksOf, Valuation.ofLabel, labelConcerns, bound, resolved]
  | false => simp [remarksOf, Valuation.ofLabel, labelConcerns, bound, unresolved]

omit positive in
theorem remarksOf_ofNumber
    {token : String} {value : Int} (address : Int)
    (readable : (Valuation.ofNumber token).map Valuation.value = .ok value) :
    remarksOf (Valuation.ofNumber token) address =
      (numberConcerns token).map (fun concern => ⟨concern, address⟩) := by
  simp only [Valuation.ofNumber] at readable ⊢
  cases reads : Numeral.read token with
  | error fault => simp [reads, Except.map] at readable
  | ok reading =>
      have exact := Numeral.exact_iff_isNumeral reads
      by_cases numeral : Numeral.IsNumeral token
      · simp [remarksOf, numberConcerns, numeral, exact.mpr numeral]
      · have inexact : reading.exact = false := by simpa [numeral] using exact
        simp [remarksOf, numberConcerns, numeral, inexact]

theorem remarksOf_ofOperand
    {token : String} (address : Int) (readable : (Part.operand token).IsReadable labels) :
    remarksOf (Valuation.ofOperand labels token) address =
      ((Part.operand token).concerns labels).map (fun concern => ⟨concern, address⟩) := by
  rcases readable with ⟨value, denoted⟩
  simp only [Part.value, Valuation.ofOperand] at denoted
  simp only [Valuation.ofOperand, Part.concerns]
  cases shape : Token.shape token with
  | reference name => exact remarksOf_ofLabel positive name address
  | address name => exact remarksOf_ofLabel positive name address
  | plain =>
      simp only [shape, LabelTable.resolve_eq_zero_iff positive] at denoted ⊢
      cases bound : labels.contains token with
      | true => rfl
      | false =>
          rw [bound] at denoted
          exact remarksOf_ofNumber address denoted

omit positive in
theorem remarksOf_ofBareLabel
    {token : String} {value : Int} (address : Int)
    (readable : (Valuation.ofBareLabel token).map Valuation.value = .ok value) :
    remarksOf (Valuation.ofBareLabel token) address = [⟨.bareLabel token, address⟩] := by
  simp only [Valuation.ofBareLabel] at readable ⊢
  cases reads : Numeral.read token with
  | error fault => simp [reads, Except.map] at readable
  | ok reading => rfl

theorem remarksOf_ofBareWord
    {token : String} (address : Int) (readable : (Part.bareWord token).IsReadable labels) :
    remarksOf (Valuation.ofBareWord labels token) address =
      ((Part.bareWord token).concerns labels).map (fun concern => ⟨concern, address⟩) := by
  rcases readable with ⟨value, denoted⟩
  simp only [Part.value, Valuation.ofBareWord] at denoted
  simp only [Valuation.ofBareWord, Part.concerns]
  -- Only the address of a label is marked; any other shape is read as a number.
  have unmarked :
      (if labels.contains token then Valuation.ofBareLabel token
          else Valuation.ofNumber token).map Valuation.value = .ok value →
        remarksOf (if labels.contains token then Valuation.ofBareLabel token
          else Valuation.ofNumber token) address =
          (if labels.contains token then [Concern.bareLabel token]
            else numberConcerns token).map (fun concern => ⟨concern, address⟩) := by
    cases labels.contains token with
    | true => exact remarksOf_ofBareLabel address
    | false => exact remarksOf_ofNumber address
  cases shape : Token.shape token with
  | address name => exact remarksOf_ofLabel positive name address
  | reference name =>
      rw [shape] at denoted
      exact unmarked denoted
  | plain =>
      rw [shape] at denoted
      exact unmarked denoted

theorem operandRemarks_eq_remarksFrom
    {operands : List String} (address : Int)
    (readable : ∀ token ∈ operands, (Part.operand token).IsReadable labels) :
    operandRemarks labels address operands =
      remarksFrom labels address (operands.map .operand) := by
  induction operands generalizing address with
  | nil => rfl
  | cons token rest tailHolds =>
      rw [List.forall_mem_cons] at readable
      rw [operandRemarks, remarksOf_ofOperand positive address readable.1,
        tailHolds _ readable.2]
      rfl

/-- The remarks of an item are those about its parts. -/
theorem Item.remarks_eq_remarksFrom
    {item : Item} (readable : ∀ part ∈ item.parts, part.IsReadable labels) :
    item.remarks labels = remarksFrom labels item.address item.parts := by
  rcases item with ⟨address, content⟩
  cases content with
  | bareWord token =>
      have bare := remarksOf_ofBareWord positive address
        (readable (.bareWord token) (by simp [Item.parts]))
      simp only [Item.remarks, Item.parts, remarksFrom, List.append_nil]
      exact bare
  | instruction index operation operands =>
      rcases Assembly.readable_instruction_iff.mp readable with ⟨_, operandsReadable⟩
      have padding : ∀ part ∈ List.replicate (operation.arity.toNat - operands.length) Part.padding,
          part.concerns labels = [] := by
        intro part member
        rw [List.eq_of_mem_replicate member]
        rfl
      simp only [Item.remarks, Item.parts, Item.lacking, remarksFrom]
      rw [operandRemarks_eq_remarksFrom positive _ operandsReadable, remarksFrom_append,
        remarksFrom_of_silent padding, List.append_nil]
      congr 1
      simp only [Item.missingRemarks, Part.concerns]
      split
      · rfl
      · rfl

/-- The remarks of consecutive items are those about all their parts. -/
theorem flatMap_remarks_eq_remarksFrom
    {items : List Item} {address : Int} (consecutive : Consecutive address items)
    (readable : IsReadable labels items) :
    items.flatMap (Item.remarks labels) =
      remarksFrom labels address (items.flatMap Item.parts) := by
  induction items generalizing address with
  | nil => rfl
  | cons item rest tailHolds =>
      rcases consecutive with ⟨rfl, others⟩
      rw [IsReadable, List.forall_mem_cons] at readable
      rw [List.flatMap_cons, List.flatMap_cons, remarksFrom_append,
        Item.remarks_eq_remarksFrom positive readable.1, tailHolds others readable.2]

end

/-! ## Warnings on the bench -/

/-- The warning that a remark becomes. -/
def Remark.warning (image : Image) (remark : Remark) : Diagnostic :=
  ⟨remark.concern.message, image.placeAt remark.address⟩

theorem warnings_remarkAll (bench : Workbench) (remarks : List Remark) :
    (bench.remarkAll remarks).image.warnings.toList =
      bench.image.warnings.toList ++ remarks.map (Remark.warning bench.image) := by
  induction remarks generalizing bench with
  | nil => simp [Workbench.remarkAll]
  | cons remark rest tailHolds =>
      have pushed :
          (bench.remark remark).image.warnings.toList =
            bench.image.warnings.toList ++ [remark.warning bench.image] :=
        Array.toList_push
      have tail := tailHolds (bench.remark remark)
      rw [pushed, List.append_assoc] at tail
      exact tail

theorem warnings_pushAll (bench : Workbench) (numbers : List Int) :
    (bench.pushAll numbers).image.warnings = bench.image.warnings := by
  induction numbers generalizing bench with
  | nil => rfl
  | cons number rest tailHolds => exact tailHolds (bench.push number)

theorem Remark.warning_congr
    {left right : Image} (sameLines : left.lines = right.lines) :
    Remark.warning left = Remark.warning right := by
  funext remark
  simp only [Remark.warning, Image.placeAt, sameLines]

theorem warnings_performAll (bench : Workbench) (items : List Item) :
    (items.foldl Workbench.perform bench).image.warnings.toList =
      bench.image.warnings.toList ++
        (items.flatMap (Item.remarks bench.image.labels)).map (Remark.warning bench.image) := by
  induction items generalizing bench with
  | nil => simp
  | cons item rest tailHolds =>
      have same := bench.sameProgram_perform item
      have step :
          (bench.perform item).image.warnings.toList =
            bench.image.warnings.toList ++
              (item.remarks bench.image.labels).map (Remark.warning bench.image) := by
        rw [Workbench.perform, warnings_pushAll, warnings_remarkAll]
      rw [List.foldl_cons, tailHolds, step, same.labels_eq,
        Remark.warning_congr same.lines_eq, List.flatMap_cons, List.map_append,
        List.append_assoc]

theorem warnings_checked (bench : Workbench) :
    (checked bench).image.warnings.toList =
      bench.image.warnings.toList ++ warningsAt .unknown (entryConcerns bench.image) := by
  simp only [checked, entryConcerns]
  split
  · exact Array.toList_push
  · exact (List.append_nil _).symm

/--
Remarks about parts become warnings about the lines of their tokens, if each
address leads to the line of its token and parts without a token are silent.
-/
theorem map_warning_remarksFrom
    {image : Image} {labels : LabelTable} {address : Int} {parts : List Part}
    {tokens : List (String × SourceLine)}
    (located : ∀ (index : Nat) (token : String) (source : SourceLine),
      tokens[index]? = some (token, source) → image.placeAt (address + index) = source)
    (silent : ∀ part ∈ parts.drop tokens.length, part.concerns labels = []) :
    (remarksFrom labels address parts).map (Remark.warning image) =
      (parts.zip tokens).flatMap
        (fun entry => warningsAt entry.2.2 (entry.1.concerns labels)) := by
  induction parts generalizing address tokens with
  | nil => rfl
  | cons part rest tailHolds =>
      cases tokens with
      | nil =>
          rw [remarksFrom_of_silent (by simpa using silent)]
          rfl
      | cons first others =>
          have here := located 0 first.1 first.2 rfl
          have further :
              ∀ (index : Nat) (token : String) (source : SourceLine),
                others[index]? = some (token, source) →
                  image.placeAt (address + 1 + index) = source := by
            intro index token source found
            have next := located (index + 1) token source found
            rw [← next]
            congr 1
            omega
          rw [remarksFrom, List.map_append, tailHolds further (by simpa using silent),
            List.zip_cons_cons, List.flatMap_cons, List.map_map]
          congr 1
          simp only [warningsAt, Function.comp_def, Remark.warning]
          rw [← here, Int.natCast_zero, Int.add_zero]

/-! ## Warnings of a load -/

/-- The parts of a program in the order of its tokens. -/
def partsOf (catalog : Catalog) (tokens : List String) : List Part :=
  (parse catalog codeStart tokens).flatMap Item.parts

/-- The warnings of an image are the concerns about the program on the lines. -/
structure ReportsConcerns (catalog : Catalog) (lines : List PlacedLine) (image : Image) :
    Prop where
  /-- Every part but padding belongs to the token at its place. -/
  aligned :
    (partsOf catalog (retained (rawTokens lines))).map Part.token? =
      (taggedTokens lines).map (fun token => some token.1) ++
        List.replicate (lackingAtEnd (parse catalog codeStart (retained (rawTokens lines)))) none
  /-- Concerns are reported part by part at the line of the token, the entry point at the end. -/
  warnings_eq :
    image.warnings.toList =
      ((partsOf catalog (retained (rawTokens lines))).zip (taggedTokens lines)).flatMap
          (fun entry => warningsAt entry.2.2 (entry.1.concerns image.labels)) ++
        warningsAt .unknown (entryConcerns image)
  /-- The lines of tokens have a file name. -/
  named : ∀ token ∈ taggedTokens lines, token.2.filename ≠ ""

theorem Loads.warnings_eq
    {catalog : Catalog} {capacity : Int} {reader : SourceReader}
    {filenames : List String} {items : List Item} {image : Image}
    (loads : Loads catalog capacity reader filenames items image) :
    image.warnings.toList =
      (items.flatMap (Item.remarks image.labels)).map (Remark.warning image) ++
        warningsAt .unknown (entryConcerns image) := by
  have blank : (surveyed capacity reader filenames).image.warnings = #[] := by
    rw [image_surveyed]
    rfl
  have sameLines : image.lines = (surveyed capacity reader filenames).image.lines := by
    rw [loads.lines_eq, lines_surveyed]
  have sameEntry :
      entryConcerns image =
        entryConcerns (items.foldl Workbench.perform
          (surveyed capacity reader filenames)).image := by
    rw [loads.eq_performed]
    rfl
  rw [sameEntry, loads.labels_eq, Remark.warning_congr sameLines, loads.image_eq,
    warnings_checked, warnings_performAll, blank]
  rfl

theorem exists_text_of_mem_sourceLines
    {reader : SourceReader} {filename : String} {line : PlacedLine}
    (member : line ∈ sourceLines reader filename) :
    line.1.filename = filename ∧ ∃ text, readText reader filename = .ok text := by
  rw [sourceLines] at member
  cases read : readText reader filename with
  | error fault =>
      rw [read] at member
      cases member
  | ok text =>
      rw [read] at member
      rcases List.mem_filterMap.mp member with ⟨numbered, _, placed⟩
      simp only [placeLine?, Option.ite_none_left_eq_some, Option.some.injEq] at placed
      rcases placed with ⟨_, rfl⟩
      exact ⟨rfl, text, rfl⟩

/-- If the empty name cannot be opened, then every line read has a file name. -/
theorem filename_ne_empty
    {reader : SourceReader} (nameless : ∀ bytes, reader "" ≠ .ok bytes)
    {filenames : List String} {token : String × SourceLine}
    (member : token ∈ taggedTokens (filenames.flatMap (sourceLines reader))) :
    token.2.filename ≠ "" := by
  rcases List.mem_flatMap.mp member with ⟨line, inLines, onLine⟩
  rcases List.mem_map.mp onLine with ⟨_, _, rfl⟩
  rcases List.mem_flatMap.mp inLines with ⟨filename, _, ofFile⟩
  rcases exists_text_of_mem_sourceLines ofFile with ⟨same, text, read⟩
  intro empty
  rw [← same, empty] at read
  cases opened : reader "" with
  | ok bytes => exact nameless bytes opened
  | error fault => simp [readText, opened, holdsNul] at read

/--
The warnings of a load are complete, in order and located: they are the concerns
about the parts of the program, each at the line its token was read on, and at
the end the one about an entry point behind the code.
-/
theorem reportsConcerns_of_load
    {catalog : Catalog} (arities : catalog.HasArities)
    {capacity : Int} {assembler : Assembler}
    (created : Assembler.create catalog capacity = .ok assembler)
    {reader : SourceReader} (nameless : ∀ bytes, reader "" ≠ .ok bytes)
    {filenames : List String} {image : Image}
    (loaded : (assembler.load reader filenames).1 = .ok image) :
    ReportsConcerns catalog (filenames.flatMap (sourceLines reader)) image := by
  rcases (load_eq_ok_iff created).mp loaded with ⟨items, loads⟩
  have items_eq := loads.items_eq_parse arities
  rw [← rawTokens_sourceLines] at items_eq
  have tokens : (taggedTokens (filenames.flatMap (sourceLines reader))).map Prod.fst =
      retained (rawTokens (filenames.flatMap (sourceLines reader))) :=
    map_fst_taggedTokens _
  constructor
  case aligned =>
    rw [partsOf, map_token?_parse, ← tokens, List.map_map]
    rfl
  case warnings_eq =>
    have readable := loads.readable
    rw [← loads.labels_eq] at readable
    have consecutive : Consecutive codeStart items := by
      rw [items_eq]
      exact consecutive_parse arities codeStart _
    have positive : ∀ item ∈ image.labels.items, 1 ≤ item.2 :=
      fun item member => (loads.label_bounds item member).1
    rw [loads.warnings_eq, flatMap_remarks_eq_remarksFrom positive consecutive readable]
    congr 1
    rw [partsOf, ← items_eq]
    apply map_warning_remarksFrom
    · intro index token source tagged
      rcases exists_atAddress?_of_taggedTokens loads.lines_eq tagged with ⟨entry, found, rfl⟩
      simp only [Image.placeAt, found, Option.map_some, Option.getD_some]
    · intro part behind
      have count := congrArg List.length tokens
      rw [List.length_map] at count
      rw [items_eq, count] at behind
      rw [eq_padding_of_mem_drop behind]
      rfl
  case named =>
    intro token member
    exact filename_ne_empty nameless member

/-- One file with an undefined label, a bare label, two faulty numbers and a missing operand. -/
def troubledFiles : FileSystem :=
  FileSystem.empty.put (.working ["a"])
    (.file (Text.Utf8.encode "mov &u x ~ 1\n7q $x l\n\n$l add 1\nnope"))

theorem reportsConcerns_troubledFiles :
    Catalog.standard.HasArities ∧ (∀ bytes, troubledFiles.reader "" ≠ .ok bytes) ∧
      ∃ assembler image,
        Assembler.create Catalog.standard 40 = .ok assembler ∧
          (assembler.load troubledFiles.reader ["a"]).1 = .ok image ∧
            ReportsConcerns Catalog.standard (["a"].flatMap (sourceLines troubledFiles.reader))
              image ∧
              image.warnings.toList =
                [ ⟨"Undefined label: u", ⟨"a", 1⟩⟩,
                  ⟨"Invalid number or unknown instruction: 7q", ⟨"a", 2⟩⟩,
                  ⟨"Bare label l emitted as a number, use &l for its address", ⟨"a", 2⟩⟩,
                  ⟨"add expects 3 operands, got 2", ⟨"a", 4⟩⟩,
                  ⟨"Invalid number or unknown instruction: nope", ⟨"a", 5⟩⟩ ] := by
  have nameless : ∀ bytes, troubledFiles.reader "" ≠ .ok bytes := by
    intro bytes
    rw [FileSystem.reader_empty_name]
    simp
  have created : Assembler.create Catalog.standard 40 = .ok ⟨Catalog.standard, 40, none⟩ := rfl
  have succeeds :
      (((Assembler.mk Catalog.standard 40 none).load troubledFiles.reader ["a"]).1.toOption.map
        (fun image => image.warnings.toList)) =
          some
            [ ⟨"Undefined label: u", ⟨"a", 1⟩⟩,
              ⟨"Invalid number or unknown instruction: 7q", ⟨"a", 2⟩⟩,
              ⟨"Bare label l emitted as a number, use &l for its address", ⟨"a", 2⟩⟩,
              ⟨"add expects 3 operands, got 2", ⟨"a", 4⟩⟩,
              ⟨"Invalid number or unknown instruction: nope", ⟨"a", 5⟩⟩ ] := by
    decide +kernel
  rcases Option.map_eq_some_iff.mp succeeds with ⟨image, found, warnings⟩
  have loaded := eq_ok_of_toOption found
  exact ⟨Catalog.hasArities_standard, nameless, _, image, created, loaded,
    reportsConcerns_of_load Catalog.hasArities_standard created nameless loaded, warnings⟩

end Program

end WordMachine
