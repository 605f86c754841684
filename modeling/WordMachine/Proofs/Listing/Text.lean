import WordMachine.Proofs.Listing
import WordMachine.Proofs.Numeral

/-!
# Texts of listings

A listing writes numbers in digits and counts the addresses of line records, and
both have limits.  `plainEntries` are the lines of a listing as they are within
the limits, and `IsWithinLimits` says what has to be within them: the numbers that
these lines show in digits, and the records that their notes come from.

`Yields` states of a step of the listing that it gives its plain text within the
limits, and that beyond them it fails because of them.  Steps are put together by
one lemma for sequences and one for lists, up to `yields_entries` for the listing
as a whole.  No word and no label is looked at twice on the way, so which of the
limits is hit first does not matter.
-/

namespace WordMachine

namespace Listing

/-! ## Steps with limits -/

/-- A fault of a number or of a line record beyond its limit. -/
inductive IsLimitFault : ListingFault → Prop where
  | longNumeral (fault : LongNumeral) : IsLimitFault (.longNumeral fault)
  | tooLong : IsLimitFault (.range .tooLong)

/-- The result is the value within the limits, and a limit fault beyond them. -/
structure Yields {α : Type} (result : Except ListingFault α) (within : Prop) (value : α) :
    Prop where
  eq_ok : within → result = .ok value
  eq_error : ¬ within → ∃ fault, result = .error fault ∧ IsLimitFault fault

namespace Yields

variable {α β : Type} {result : Except ListingFault α} {within : Prop} {value : α}

theorem of_ok (value : α) : Yields (.ok value) True value :=
  ⟨fun _ => rfl, fun beyond => (beyond trivial).elim⟩

theorem congr {other : Prop} (yields : Yields result within value) (same : within ↔ other) :
    Yields result other value :=
  propext same ▸ yields

/-- One step after the other: both have to be within the limits. -/
theorem bind
    (first : Yields result within value)
    {next : α → Except ListingFault β} {nextWithin : Prop} {last : β}
    (second : Yields (next value) nextWithin last) :
    Yields (result >>= next) (within ∧ nextWithin) last where
  eq_ok := by
    rintro ⟨inside, nextInside⟩
    rw [first.eq_ok inside]
    exact second.eq_ok nextInside
  eq_error := by
    intro beyond
    by_cases inside : within
    · rw [first.eq_ok inside]
      exact second.eq_error fun nextInside => beyond ⟨inside, nextInside⟩
    · rcases first.eq_error inside with ⟨fault, failed, limit⟩
      rw [failed]
      exact ⟨fault, rfl, limit⟩

theorem map (yields : Yields result within value) (change : α → β) :
    Yields (result >>= fun found => pure (change found)) within (change value) :=
  (yields.bind (of_ok (change value))).congr (and_iff_left trivial)

/-- A step for each of several inputs: all of them have to be within the limits. -/
theorem mapM
    {step : β → Except ListingFault α} {within : β → Prop} {value : β → α}
    (each : ∀ input, Yields (step input) (within input) (value input)) (inputs : List β) :
    Yields (inputs.mapM step) (∀ input ∈ inputs, within input) (inputs.map value) := by
  induction inputs with
  | nil =>
      rw [List.mapM_nil]
      exact (of_ok []).congr (by simp)
  | cons input rest tailHolds =>
      rw [List.mapM_cons]
      refine Yields.congr ?_ List.forall_mem_cons.symm
      refine (each input).bind ?_
      exact tailHolds.map fun results => value input :: results

end Yields

/-! ## Plain texts -/

/-- The label that is shown in place of an address. -/
def labelFor? (labels : LabelTable) (value : Int) : Option String :=
  (labels.namesAt value).head?.filter (fun name => name ≠ "")

/-- The text of an address operand. -/
def plainAddress (labels : LabelTable) (value : Int) : String :=
  (labelFor? labels value).getD (toString value)

/-- The text of an operand. -/
def plainOperand (labels : LabelTable) : OperandKind × Int → String
  | (.reference, value) => "*" ++ plainAddress labels value
  | (.memory, value) => plainAddress labels value
  | (.literal, value) => toString value

/-- The text of what an item shows. -/
def Content.plainText (labels : LabelTable) : Content → String
  | .instruction operation operands =>
      String.intercalate " " (operation.name :: operands.map (plainOperand labels))
  | .word value => ".word " ++ toString value

/-- The note behind an item that names its source line. -/
def plainNote (image : Image) (address : Int) : String :=
  ((image.lines.atAddress? address).map fun entry =>
    "  ~ " ++ entry.source.filename ++ ":" ++ toString entry.source.number).getD ""

/-- The line of an item. -/
def plainLine (image : Image) (item : Item) : String :=
  padded (toString item.address) ++ ": " ++ item.content.plainText image.labels ++
    plainNote image item.address

/-- The lines of an item: its labels and then the item. -/
def plainLines (image : Image) (item : Item) : List String :=
  (sortedNames image.labels item.address).map (fun name => "$" ++ name) ++ [plainLine image item]

/-- The lines in front of the first item. -/
def plainHeader (image : Image) : List String :=
  [ "~ Entry point: " ++ toString image.entry,
    "~ Code length: " ++ toString image.length ++ " words", "" ]

/-- The lines of a listing of items. -/
def plainEntries (image : Image) (items : List Item) : List String :=
  plainHeader image ++ items.flatMap (plainLines image)

/-! ## Numbers in digits -/

/-- The number that an address operand shows in digits, if no label stands for it. -/
def addressNumbers (labels : LabelTable) (value : Int) : List Int :=
  if (labelFor? labels value).isSome then [] else [value]

/-- The number that an operand shows in digits, if any. -/
def operandNumbers (labels : LabelTable) : OperandKind × Int → List Int
  | (.reference, value) => addressNumbers labels value
  | (.memory, value) => addressNumbers labels value
  | (.literal, value) => [value]

/-- The numbers that the text of an item shows in digits. -/
def Content.numbers (labels : LabelTable) : Content → List Int
  | .instruction _ operands => operands.flatMap (operandNumbers labels)
  | .word value => [value]

/-- The number of the source line behind an item. -/
def noteNumbers (image : Image) (address : Int) : List Int :=
  ((image.lines.atAddress? address).map fun entry => entry.source.number).toList

/-- The numbers that the line of an item shows in digits. -/
def Item.numbers (image : Image) (item : Item) : List Int :=
  item.content.numbers image.labels ++ noteNumbers image item.address ++ [item.address]

/-- What the line of an item shows is within the limits. -/
structure Item.IsWithinLimits (image : Image) (item : Item) : Prop where
  writable : ∀ number ∈ item.numbers image, Numeral.IsWritable number
  countable : ∀ entry, image.lines.atAddress? item.address = some entry →
    entry.range.IsCountable

theorem Item.IsWithinLimits.writable_text
    {image : Image} {item : Item} (within : item.IsWithinLimits image) :
    ∀ number ∈ item.content.numbers image.labels, Numeral.IsWritable number := by
  intro number member
  exact within.writable number (List.mem_append_left _ (List.mem_append_left _ member))

/-- What a listing of items shows is within the limits. -/
structure IsWithinLimits (image : Image) (items : List Item) : Prop where
  entry : Numeral.IsWritable image.entry
  length : Numeral.IsWritable image.length
  items : ∀ item ∈ items, item.IsWithinLimits image

/-! ## The steps of a listing -/

theorem yields_numberText (number : Int) :
    Yields (numberText number) (Numeral.IsWritable number) (toString number) where
  eq_ok := by
    intro writable
    rw [numberText, Numeral.write_of_isWritable writable]
    rfl
  eq_error := by
    intro long
    rw [numberText, Numeral.write_of_not_isWritable long]
    exact ⟨_, rfl, .longNumeral _⟩

theorem yields_addressText (labels : LabelTable) (value : Int) :
    Yields (addressText labels value)
      (∀ number ∈ addressNumbers labels value, Numeral.IsWritable number)
      (plainAddress labels value) := by
  have inDigits :
      Yields (numberText value) (∀ number ∈ [value], Numeral.IsWritable number)
        (toString value) :=
    (yields_numberText value).congr List.forall_mem_singleton.symm
  rw [addressText, addressNumbers, plainAddress, labelFor?]
  cases labels.namesAt value with
  | nil => exact inDigits
  | cons name others =>
      by_cases empty : name = ""
      · simpa [empty, Option.filter] using inDigits
      · simpa [empty, Option.filter] using Yields.of_ok name

theorem yields_operandText (labels : LabelTable) (operand : OperandKind × Int) :
    Yields (operandText labels operand)
      (∀ number ∈ operandNumbers labels operand, Numeral.IsWritable number)
      (plainOperand labels operand) := by
  rcases operand with ⟨kind, value⟩
  cases kind with
  | reference => exact (yields_addressText labels value).map fun text => "*" ++ text
  | memory => exact yields_addressText labels value
  | literal => exact (yields_numberText value).congr List.forall_mem_singleton.symm

theorem yields_text (labels : LabelTable) (content : Content) :
    Yields (content.text labels)
      (∀ number ∈ content.numbers labels, Numeral.IsWritable number)
      (content.plainText labels) := by
  cases content with
  | instruction operation operands =>
      have texts := Yields.mapM (yields_operandText labels) operands
      refine (texts.map fun texts => String.intercalate " " (operation.name :: texts)).congr ?_
      simp only [Content.numbers, List.forall_mem_flatMap]
  | word value =>
      exact ((yields_numberText value).map fun text => ".word " ++ text).congr
        List.forall_mem_singleton.symm

theorem yields_sourceNote (image : Image) (address : Int) :
    Yields (sourceNote image address)
      ((∀ entry, image.lines.atAddress? address = some entry → entry.range.IsCountable) ∧
        ∀ number ∈ noteNumbers image address, Numeral.IsWritable number)
      (plainNote image address) := by
  cases found : image.lines.atAddress? address with
  | none =>
      have unknown : image.lines.sourceAt? address = .ok none := by
        simp only [LineTable.sourceAt?, found]
      simp only [sourceNote, unknown, plainNote, noteNumbers, found]
      exact (Yields.of_ok "").congr (by simp)
  | some entry =>
      have known := LineTable.sourceAt?_of_atAddress? found
      by_cases countable : entry.range.IsCountable
      · rw [if_pos countable] at known
        simp only [sourceNote, known, plainNote, noteNumbers, found]
        refine ((yields_numberText entry.source.number).map fun number =>
          "  ~ " ++ entry.source.filename ++ ":" ++ number).congr ?_
        simp [countable]
      · rw [if_neg countable] at known
        constructor
        · intro within
          exact (countable (within.1 entry rfl)).elim
        · intro _
          simp only [sourceNote, known]
          exact ⟨_, rfl, .tooLong⟩

theorem yields_itemLine (image : Image) (item : Item) :
    Yields (itemLine image item) (item.IsWithinLimits image) (plainLine image item) := by
  have steps :
      Yields (itemLine image item)
        ((∀ number ∈ item.content.numbers image.labels, Numeral.IsWritable number) ∧
          ((∀ entry, image.lines.atAddress? item.address = some entry →
            entry.range.IsCountable) ∧
              ∀ number ∈ noteNumbers image item.address, Numeral.IsWritable number) ∧
            Numeral.IsWritable item.address)
        (plainLine image item) := by
    refine (yields_text image.labels item.content).bind ?_
    refine (yields_sourceNote image item.address).bind ?_
    exact (yields_numberText item.address).map fun address =>
      padded address ++ ": " ++ item.content.plainText image.labels ++
        plainNote image item.address
  refine steps.congr ?_
  constructor
  · rintro ⟨text, ⟨countable, note⟩, address⟩
    refine ⟨?_, countable⟩
    simp only [Item.numbers, List.forall_mem_append, List.forall_mem_singleton]
    exact ⟨⟨text, note⟩, address⟩
  · rintro ⟨writable, countable⟩
    simp only [Item.numbers, List.forall_mem_append, List.forall_mem_singleton] at writable
    exact ⟨writable.1.1, ⟨countable, writable.1.2⟩, writable.2⟩

theorem yields_headerLines (image : Image) :
    Yields (headerLines image)
      (Numeral.IsWritable image.entry ∧ Numeral.IsWritable image.length)
      (plainHeader image) := by
  refine (yields_numberText image.entry).bind ?_
  exact (yields_numberText image.length).map fun length =>
    ["~ Entry point: " ++ toString image.entry, "~ Code length: " ++ length ++ " words", ""]

/-- The listing of the items that show the code is made exactly within the limits. -/
theorem yields_entries
    {image : Image} {catalog : Catalog} {items : List Item}
    (shows : Shows image catalog codeStart items) :
    Yields (entries image catalog) (IsWithinLimits image items) (plainEntries image items) := by
  have lines (item : Item) :
      Yields (itemLines image item) (item.IsWithinLimits image) (plainLines image item) :=
    (yields_itemLine image item).map fun line =>
      (sortedNames image.labels item.address).map (fun name => "$" ++ name) ++ [line]
  have limits :
      (Numeral.IsWritable image.entry ∧ Numeral.IsWritable image.length) ∧
          (∀ item ∈ items, item.IsWithinLimits image) ↔
        IsWithinLimits image items := by
    constructor
    · rintro ⟨⟨entry, length⟩, each⟩
      exact ⟨entry, length, each⟩
    · rintro ⟨entry, length, each⟩
      exact ⟨⟨entry, length⟩, each⟩
  rw [entries_of_shows shows, plainEntries, List.flatMap]
  refine Yields.congr ?_ limits
  refine (yields_headerLines image).bind ?_
  exact (Yields.mapM lines items).map fun shown => plainHeader image ++ shown.flatten

theorem yields_render
    {image : Image} {catalog : Catalog} {items : List Item}
    (shows : Shows image catalog codeStart items) :
    Yields (render image catalog) (IsWithinLimits image items)
      (String.intercalate "\n" (plainEntries image items)) := by
  have joined := (yields_entries shows).map (String.intercalate "\n")
  have same : render image catalog =
      entries image catalog >>= fun lines => pure (String.intercalate "\n" lines) := by
    rw [render]
    cases entries image catalog with
    | error fault => rfl
    | ok lines => rfl
  rw [same]
  exact joined

/-! ## Images within the limits -/

theorem isWritable_of_fits {value : Int} (fits : Word.Fits value) : Numeral.IsWritable value := by
  rw [Word.Fits] at fits
  apply Numeral.isWritable_of_natAbs_lt
  omega

/-- Numbers and line records of an image are within the limits, whether they are shown or not. -/
structure HasWritableParts (image : Image) : Prop where
  entry : Numeral.IsWritable image.entry
  length : Numeral.IsWritable image.length
  words : ∀ word ∈ image.code, Numeral.IsWritable word
  numbers : ∀ entry ∈ image.lines.records, Numeral.IsWritable entry.source.number
  countable : ∀ entry ∈ image.lines.records, entry.range.IsCountable

theorem eq_of_mem_operandNumbers
    {labels : LabelTable} {operand : OperandKind × Int} {number : Int}
    (member : number ∈ operandNumbers labels operand) :
    number = operand.2 := by
  have inAddress {value : Int} (shown : number ∈ addressNumbers labels value) :
      number = value := by
    rw [addressNumbers] at shown
    split at shown
    · cases shown
    · exact List.mem_singleton.mp shown
  rcases operand with ⟨kind, value⟩
  cases kind with
  | reference => exact inAddress member
  | memory => exact inAddress member
  | literal => exact List.mem_singleton.mp member

/-- The numbers of an item come from the words. -/
theorem mem_code_of_contentAt
    {image : Image} {catalog : Catalog} {address : Int} {content : Content}
    (shown : contentAt image catalog address = .ok content)
    {labels : LabelTable} {number : Int} (member : number ∈ content.numbers labels) :
    number ∈ image.code := by
  rw [contentAt] at shown
  split at shown
  · cases shown
  · cases shown
    rcases List.mem_flatMap.mp member with ⟨operand, paired, inOperand⟩
    rw [eq_of_mem_operandNumbers inOperand]
    have extracted := (List.of_mem_zip paired).2
    rw [Array.toList_extract] at extracted
    exact Array.mem_toList_iff.mp
      (List.mem_of_mem_drop (List.mem_of_mem_take extracted))
  · split at shown
    · cases shown
    · rename_i word found
      cases shown
      rw [List.mem_singleton.mp member]
      rcases Option.bind_eq_some_iff.mp found with ⟨position, _, here⟩
      exact Array.mem_of_getElem? here

theorem isWithinLimits_of_mem
    {image : Image} (parts : HasWritableParts image) {catalog : Catalog} {address : Int}
    {items : List Item} (shows : Shows image catalog address items) (start : 0 ≤ address) :
    ∀ item ∈ items, item.IsWithinLimits image := by
  induction items generalizing address with
  | nil => simp
  | cons item rest tailHolds =>
      rcases shows with ⟨before, place, shown, tail⟩
      rw [List.forall_mem_cons]
      refine ⟨⟨?_, ?_⟩, tailHolds tail (by omega)⟩
      · simp only [Item.numbers, List.forall_mem_append, List.forall_mem_singleton]
        refine ⟨⟨?_, ?_⟩, ?_⟩
        · intro number member
          exact parts.words number (mem_code_of_contentAt shown member)
        · intro number member
          rw [noteNumbers, Option.mem_toList, Option.map_eq_some_iff] at member
          rcases member with ⟨entry, found, rfl⟩
          exact parts.numbers entry (LineTable.mem_records_of_atAddress? found)
        · exact parts.length.of_natAbs_le (by omega)
      · intro entry found
        exact parts.countable entry (LineTable.mem_records_of_atAddress? found)

theorem HasWritableParts.isWithinLimits
    {image : Image} (parts : HasWritableParts image) {catalog : Catalog} {items : List Item}
    (shows : Shows image catalog codeStart items) :
    IsWithinLimits image items :=
  ⟨parts.entry, parts.length, isWithinLimits_of_mem parts shows (by decide)⟩

/-- The listing of such an image is made. -/
theorem exists_render
    {image : Image} (parts : HasWritableParts image) (bound : image.length ≤ image.code.size)
    {catalog : Catalog} (arities : catalog.HasArities) :
    ∃ text, render image catalog = .ok text := by
  rcases exists_shows arities bound 9 with ⟨items, shows⟩
  exact ⟨_, (yields_render shows).eq_ok (parts.isWithinLimits shows)⟩

end Listing

end WordMachine
