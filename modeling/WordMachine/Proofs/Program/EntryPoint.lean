import WordMachine.Proofs.Program.Warnings

/-!
# Entry points behind the code

A directive gives the entry point the address of the next retained token.  If
there is none, the address is the one behind all tokens, where the words that pad
the last instruction stand, if it lacks operands.  The entry point is therefore
behind the code exactly if no token follows the last directive and the last
instruction lacks nothing (`Loads.entryPastEnd_iff`).

Warnings are texts.  No other warning of a load reads like the one about the
entry point, because a mnemonic that was read from a source holds no blank.
-/

namespace WordMachine

namespace Program

/-! ## Directives without a token behind them -/

/-- There is a directive, and no token is retained behind the last one. -/
def EndsInEntry (raw : List String) : Prop :=
  ∃ earlier later,
    raw = earlier ++ Token.entryKeyword :: later ∧
      Token.entryKeyword ∉ later ∧ retained later = []

theorem exists_last_directive {raw : List String} (member : Token.entryKeyword ∈ raw) :
    ∃ earlier later,
      raw = earlier ++ Token.entryKeyword :: later ∧ Token.entryKeyword ∉ later := by
  -- The last directive is the first one from behind.
  rcases List.eq_append_cons_of_mem (List.mem_reverse.mpr member) with
    ⟨later, earlier, split, absent⟩
  refine ⟨earlier.reverse, later.reverse, ?_, by simpa using absent⟩
  rw [← List.reverse_reverse raw, split]
  simp

theorem length_retained_split (earlier later : List String) :
    (retained (earlier ++ Token.entryKeyword :: later)).length =
      (retained earlier).length + (retained later).length := by
  have dropped : Token.role Token.entryKeyword ≠ .retained := by decide
  simp [retained, dropped]

section

variable {catalog : Catalog} {capacity : Int} {reader : SourceReader}
  {filenames : List String} {items : List Item} {image : Image}
  (loads : Loads catalog capacity reader filenames items image)
  (arities : catalog.HasArities)

include loads arities

/-- The code has a word for each token and for each operand that the last item lacks. -/
theorem Loads.length_eq_tokens :
    image.length =
      codeStart + (retained (sourceTokens reader filenames)).length +
        lackingAtEnd (parse catalog codeStart (retained (sourceTokens reader filenames))) := by
  rw [loads.length_eq, loads.items_eq_parse arities, length_parts_parse]
  omega

/-- When the entry point is reported, in terms of the source. -/
theorem Loads.entryPastEnd_iff :
    image.entry ≠ codeStart ∧ image.length ≤ image.entry ↔
      EndsInEntry (sourceTokens reader filenames) ∧
        lackingAtEnd (parse catalog codeStart (retained (sourceTokens reader filenames))) = 0 ∧
          retained (sourceTokens reader filenames) ≠ [] := by
  have resolves := loads.resolvesEntry
  have length_eq := loads.length_eq_tokens arities
  rw [← List.length_pos_iff]
  constructor
  · rintro ⟨moved, past⟩
    have directed : Token.entryKeyword ∈ sourceTokens reader filenames := by
      apply Decidable.byContradiction
      intro absent
      exact moved (resolves.no_directive absent)
    rcases exists_last_directive directed with ⟨earlier, later, split, last⟩
    have count := length_retained_split earlier later
    rw [← split] at count
    rw [resolves.last_directive earlier later split last] at moved past
    refine ⟨⟨earlier, later, split, last, ?_⟩, by omega, by omega⟩
    apply List.eq_nil_of_length_eq_zero
    omega
  · rintro ⟨⟨earlier, later, split, last, unfollowed⟩, complete, some⟩
    have count := length_retained_split earlier later
    rw [← split, unfollowed, List.length_nil] at count
    rw [resolves.last_directive earlier later split last]
    omega

end

/-! ## Warnings that read like the one about the entry point -/

/-- The text of the warning is the one about an entry point, with whatever addresses. -/
def WarnsOfEntry (warning : Diagnostic) : Prop :=
  ∃ entry length : Int, warning.message = (Concern.entryPastEnd entry length).message

/-- The letter that the second word of a message starts with, which tells messages apart. -/
def secondInitial? (message : String) : Option Char :=
  (message.toList.dropWhile (fun character => !Text.isBlank character))[1]?

theorem secondInitial?_append
    {start : String} {letter : Char} (found : secondInitial? start = some letter)
    (rest : String) :
    secondInitial? (start ++ rest) = some letter := by
  rw [secondInitial?] at found ⊢
  have inside := (List.getElem?_eq_some_iff.mp found).1
  rw [String.toList_append, List.dropWhile_append, if_neg, List.getElem?_append_left inside, found]
  intro empty
  rw [List.isEmpty_iff.mp empty] at inside
  cases inside

theorem secondInitial?_of_isUnbroken
    {first : String} (unbroken : Text.IsUnbroken first) (rest : String) :
    secondInitial? (first ++ rest) = secondInitial? rest := by
  rw [secondInitial?, secondInitial?, String.toList_append, List.dropWhile_append_of_pos]
  intro character member
  rw [unbroken character member]
  rfl

theorem WarnsOfEntry.secondInitial?_eq {warning : Diagnostic} (warns : WarnsOfEntry warning) :
    secondInitial? warning.message = some 'p' := by
  rcases warns with ⟨entry, length, message_eq⟩
  rw [message_eq]
  apply secondInitial?_append
  apply secondInitial?_append
  apply secondInitial?_append
  exact secondInitial?_append (by decide +kernel) _

/-- What a part can give rise to. -/
theorem Part.cases_of_mem_concerns
    {labels : LabelTable} {part : Part} {concern : Concern}
    (raised : concern ∈ part.concerns labels) :
    (∃ name, concern = .undefinedLabel name) ∨ (∃ token, concern = .invalidNumber token) ∨
      (∃ token, concern = .bareLabel token) ∨
        ∃ mnemonic expected available,
          part.token? = some mnemonic ∧ concern = .missingOperands mnemonic expected available := by
  have ofLabel {name : String} (about : concern ∈ labelConcerns labels name) :
      concern = .undefinedLabel name := by
    rw [labelConcerns] at about
    split at about
    · cases about
    · exact List.mem_singleton.mp about
  have ofNumber {token : String} (about : concern ∈ numberConcerns token) :
      concern = .invalidNumber token := by
    rw [numberConcerns] at about
    split at about
    · cases about
    · exact List.mem_singleton.mp about
  cases part with
  | padding => cases raised
  | mnemonic index operation operands =>
      simp only [concerns] at raised
      split at raised
      · exact .inr (.inr (.inr ⟨_, _, _, rfl, List.mem_singleton.mp raised⟩))
      · cases raised
  | operand token =>
      simp only [concerns] at raised
      split at raised
      case h_1 name _ => exact .inl ⟨name, ofLabel raised⟩
      case h_2 name _ => exact .inl ⟨name, ofLabel raised⟩
      case h_3 =>
        split at raised
        · cases raised
        · exact .inr (.inl ⟨token, ofNumber raised⟩)
  | bareWord token =>
      simp only [concerns] at raised
      split at raised
      case h_1 name _ => exact .inl ⟨name, ofLabel raised⟩
      case h_2 =>
        split at raised
        · exact .inr (.inr (.inl ⟨token, List.mem_singleton.mp raised⟩))
        · exact .inr (.inl ⟨token, ofNumber raised⟩)

theorem Part.exists_secondInitial
    {labels : LabelTable} {part : Part} {concern : Concern}
    (unbroken : ∀ token, part.token? = some token → Text.IsUnbroken token)
    (raised : concern ∈ part.concerns labels) :
    ∃ letter, letter ≠ 'p' ∧ secondInitial? concern.message = some letter := by
  rcases part.cases_of_mem_concerns raised with
    ⟨name, rfl⟩ | ⟨token, rfl⟩ | ⟨token, rfl⟩ | ⟨mnemonic, expected, available, read, rfl⟩
  · exact ⟨'l', by decide, secondInitial?_append (by decide +kernel) _⟩
  · exact ⟨'n', by decide, secondInitial?_append (by decide +kernel) _⟩
  · refine ⟨'l', by decide, ?_⟩
    apply secondInitial?_append
    apply secondInitial?_append
    apply secondInitial?_append
    exact secondInitial?_append (by decide +kernel) _
  · -- This message starts with the mnemonic itself, so it matters that no blank breaks it.
    refine ⟨'e', by decide, ?_⟩
    apply secondInitial?_append
    apply secondInitial?_append
    apply secondInitial?_append
    rw [secondInitial?_of_isUnbroken (unbroken mnemonic read)]
    decide +kernel

/-- No concern about a part of a program reads like one about the entry point. -/
theorem Part.not_warnsOfEntry
    {labels : LabelTable} {part : Part} {concern : Concern}
    (unbroken : ∀ token, part.token? = some token → Text.IsUnbroken token)
    (raised : concern ∈ part.concerns labels) (source : SourceLine) :
    ¬ WarnsOfEntry ⟨concern.message, source⟩ := by
  intro warns
  rcases part.exists_secondInitial unbroken raised with ⟨letter, different, initial⟩
  have same : some letter = some 'p' := initial.symm.trans warns.secondInitial?_eq
  exact different (Option.some.inj same)

/-! ## The warning of a load -/

theorem exists_part_of_mem_remarksFrom
    {labels : LabelTable} {address : Int} {parts : List Part} {remark : Remark}
    (member : remark ∈ remarksFrom labels address parts) :
    ∃ part ∈ parts, remark.concern ∈ part.concerns labels := by
  induction parts generalizing address with
  | nil => cases member
  | cons part rest tailHolds =>
      rcases List.mem_append.mp member with first | later
      · rcases List.mem_map.mp first with ⟨concern, raised, rfl⟩
        exact ⟨part, List.mem_cons_self, raised⟩
      · rcases tailHolds later with ⟨other, inRest, raised⟩
        exact ⟨other, List.mem_cons_of_mem part inRest, raised⟩

theorem mem_tokens_of_mem_parts
    {catalog : Catalog} {address : Int} {tokens : List String} {part : Part} {token : String}
    (member : part ∈ (parse catalog address tokens).flatMap Item.parts)
    (read : part.token? = some token) :
    token ∈ tokens := by
  have inParts := List.mem_map_of_mem (f := Part.token?) member
  rw [map_token?_parse, read] at inParts
  rcases List.mem_append.mp inParts with ofToken | ofPadding
  · simpa using ofToken
  · cases List.eq_of_mem_replicate ofPadding

section

variable {catalog : Catalog} {capacity : Int} {reader : SourceReader}
  {filenames : List String} {items : List Item} {image : Image}
  (loads : Loads catalog capacity reader filenames items image)
  (arities : catalog.HasArities)

include loads arities

theorem Loads.not_warnsOfEntry_of_mem_remarks
    {item : Item} (member : item ∈ items)
    {remark : Remark} (remarked : remark ∈ item.remarks image.labels) :
    ¬ WarnsOfEntry (remark.warning image) := by
  have readable := loads.readable item member
  rw [← loads.labels_eq] at readable
  rw [Item.remarks_eq_remarksFrom (fun label bound => (loads.label_bounds label bound).1)
    readable] at remarked
  rcases exists_part_of_mem_remarksFrom remarked with ⟨part, inParts, raised⟩
  refine part.not_warnsOfEntry ?_ raised _
  intro token read
  have inProgram := List.mem_flatMap.mpr ⟨item, member, inParts⟩
  rw [loads.items_eq_parse arities] at inProgram
  have retainedToken := mem_tokens_of_mem_parts inProgram read
  exact (isWord_of_mem_sourceTokens (List.mem_filter.mp retainedToken).1).isUnbroken

/-- The entry point is reported exactly if it was moved and lies behind the code. -/
theorem Loads.warnsOfEntry_iff :
    (∃ warning ∈ image.warnings, WarnsOfEntry warning) ↔
      image.entry ≠ codeStart ∧ image.length ≤ image.entry := by
  constructor
  · rintro ⟨warning, member, warns⟩
    rw [← Array.mem_toList_iff, loads.warnings_eq] at member
    rcases List.mem_append.mp member with remarked | final
    · rcases List.mem_map.mp remarked with ⟨remark, inRemarks, rfl⟩
      rcases List.mem_flatMap.mp inRemarks with ⟨item, inItems, ofItem⟩
      exact absurd warns (loads.not_warnsOfEntry_of_mem_remarks arities inItems ofItem)
    · rw [entryConcerns] at final
      split at final
      case isTrue past => exact past
      case isFalse => cases final
  · intro past
    refine ⟨⟨(Concern.entryPastEnd image.entry image.length).message, .unknown⟩, ?_,
      image.entry, image.length, rfl⟩
    rw [← Array.mem_toList_iff, loads.warnings_eq, entryConcerns, if_pos past]
    exact List.mem_append_right _ List.mem_cons_self

end

/--
A load warns of an entry point behind the code exactly if no token follows the
last directive and the last instruction has all its operands.  Of a source with a
directive that retains no token at all, nothing is said.
-/
theorem warnsOfEntry_iff_of_load
    {catalog : Catalog} (arities : catalog.HasArities)
    {capacity : Int} {assembler : Assembler}
    (created : Assembler.create catalog capacity = .ok assembler)
    {reader : SourceReader} {filenames : List String} {image : Image}
    (loaded : (assembler.load reader filenames).1 = .ok image)
    (occupied : EndsInEntry (sourceTokens reader filenames) →
      retained (sourceTokens reader filenames) ≠ []) :
    (∃ warning ∈ image.warnings, WarnsOfEntry warning) ↔
      EndsInEntry (sourceTokens reader filenames) ∧
        lackingAtEnd
          (parse catalog codeStart (retained (sourceTokens reader filenames))) = 0 := by
  rcases (load_eq_ok_iff created).mp loaded with ⟨items, loads⟩
  rw [loads.warnsOfEntry_iff arities, loads.entryPastEnd_iff arities]
  constructor
  · rintro ⟨ends, complete, _⟩
    exact ⟨ends, complete⟩
  · rintro ⟨ends, complete⟩
    exact ⟨ends, complete, occupied ends⟩

/-- Two directives, the last of them behind a complete instruction and in front of a label. -/
def directedProgram : SourceReader :=
  singleSource "a" "entry mov 1 2 entry ~ 3\n$x"

theorem warnsOfEntry_directedProgram :
    Catalog.standard.HasArities ∧
      (EndsInEntry (sourceTokens directedProgram ["a"]) →
        retained (sourceTokens directedProgram ["a"]) ≠ []) ∧
        ∃ assembler image,
          Assembler.create Catalog.standard 40 = .ok assembler ∧
            (assembler.load directedProgram ["a"]).1 = .ok image ∧
              EndsInEntry (sourceTokens directedProgram ["a"]) ∧
                ∃ warning ∈ image.warnings, WarnsOfEntry warning := by
  have created : Assembler.create Catalog.standard 40 = .ok ⟨Catalog.standard, 40, none⟩ := rfl
  have tokens :
      sourceTokens directedProgram ["a"] = ["entry", "mov", "1", "2", "entry", "$x"] := by
    decide +kernel
  have ends : EndsInEntry (sourceTokens directedProgram ["a"]) := by
    rw [tokens]
    exact ⟨["entry", "mov", "1", "2"], ["$x"], rfl, by decide, by decide⟩
  have occupied : retained (sourceTokens directedProgram ["a"]) ≠ [] := by
    rw [tokens]
    decide
  have complete :
      lackingAtEnd (parse Catalog.standard codeStart
        (retained (sourceTokens directedProgram ["a"]))) = 0 := by
    decide +kernel
  have succeeds :
      ((Assembler.mk Catalog.standard 40 none).load directedProgram ["a"]).1.toOption.isSome =
        true := by
    decide +kernel
  rcases Option.isSome_iff_exists.mp succeeds with ⟨image, found⟩
  have loaded := eq_ok_of_toOption found
  have warns :=
    warnsOfEntry_iff_of_load Catalog.hasArities_standard created loaded (fun _ => occupied)
  exact ⟨Catalog.hasArities_standard, fun _ => occupied, _, image, created, loaded, ends,
    warns.mpr ⟨ends, complete⟩⟩

/-! ## A directive behind an instruction that lacks an operand -/

/-- A directive behind the last token, whose address is that of the missing operand. -/
def paddedProgram : SourceReader :=
  singleSource "a" "mov 1 entry"

/-- A directive without a token behind it may lead into padding, which is not reported. -/
theorem load_paddedProgram_does_not_warn :
    ¬ ∀ (catalog : Catalog) (capacity : Int) (assembler : Assembler) (reader : SourceReader)
        (filenames : List String) (image : Image),
      catalog.HasArities → Assembler.create catalog capacity = .ok assembler →
        (assembler.load reader filenames).1 = .ok image →
          ((∃ warning ∈ image.warnings, WarnsOfEntry warning) ↔
            EndsInEntry (sourceTokens reader filenames)) := by
  intro reported
  have succeeds :
      ((Assembler.mk Catalog.standard 40 none).load paddedProgram ["a"]).1.toOption.map
          (fun image => image.warnings.toList) =
        some [⟨"mov expects 2 operands, got 1", ⟨"a", 1⟩⟩] := by
    decide +kernel
  rcases Option.map_eq_some_iff.mp succeeds with ⟨image, found, warnings⟩
  have ends : EndsInEntry (sourceTokens paddedProgram ["a"]) := by
    have tokens : sourceTokens paddedProgram ["a"] = ["mov", "1", "entry"] := by decide +kernel
    rw [tokens]
    exact ⟨["mov", "1"], [], rfl, by decide, by decide⟩
  rcases (reported Catalog.standard 40 _ paddedProgram ["a"] image Catalog.hasArities_standard rfl
    (eq_ok_of_toOption found)).mpr ends with ⟨warning, member, warns⟩
  rw [← Array.mem_toList_iff, warnings, List.mem_singleton] at member
  subst member
  exact absurd warns.secondInitial?_eq (by decide +kernel)

end Program

end WordMachine
