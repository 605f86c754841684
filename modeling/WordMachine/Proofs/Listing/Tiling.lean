import WordMachine.Proofs.Listing.Decoding
import WordMachine.Proofs.Payload.Document
import WordMachine.Proofs.Program.Listing

/-!
# What a listing covers

The words of an image need not come from an assembler, so a listing has to move
through integers of any size.  It cannot run past the words, because an item is
shown as an instruction only if all its operands lie in the code.  It cannot skip
a word either, because the next item starts where the words shown end.  Together
the items tile the code: each address in it belongs to exactly one of them, and
the last one ends where the code ends.

What integers of any size do prevent is the text: a number of more digits than
can be written, or a line record of more addresses than can be counted, ends the
listing.  An image that is loaded or decoded has none of them.
-/

namespace WordMachine

namespace Listing

/-! ## Names in the order of their code points -/

/-- The code points of a name. -/
def codePoints (name : String) : List Nat :=
  name.toList.map Char.toNat

theorem codePoints_lt {left right : String} (before : left < right) :
    codePoints left < codePoints right :=
  List.map_lt (fun _ _ smaller => smaller) before

theorem mem_namesAt_iff (labels : LabelTable) (address : Int) (name : String) :
    name ∈ labels.namesAt address ↔ (name, address) ∈ labels.items := by
  simp [LabelTable.namesAt]

theorem nodup_namesAt (labels : LabelTable) (address : Int) :
    (labels.namesAt address).Nodup :=
  labels.bindings.distinct.sublist (List.filter_sublist.map Prod.fst)

theorem mem_sortedNames_iff (labels : LabelTable) (address : Int) (name : String) :
    name ∈ sortedNames labels address ↔ (name, address) ∈ labels.items := by
  rw [sortedNames, (List.mergeSort_perm _ _).mem_iff, mem_namesAt_iff]

/-- No name is repeated, so the order is strict. -/
theorem pairwise_sortedNames (labels : LabelTable) (address : Int) :
    (sortedNames labels address).Pairwise
      (fun left right => codePoints left < codePoints right) := by
  have distinct : (sortedNames labels address).Nodup :=
    (List.mergeSort_perm _ _).nodup_iff.mpr (nodup_namesAt labels address)
  have ordered :
      (sortedNames labels address).Pairwise (fun left right => decide (left ≤ right) = true) := by
    apply List.pairwise_mergeSort
    · intro first second third
      simpa using String.le_trans
    · intro left right
      simpa using String.le_total left right
  refine (ordered.and distinct).imp ?_
  rintro left right ⟨before, different⟩
  apply codePoints_lt
  apply String.not_le.mp
  intro behind
  exact different (String.le_antisymm (of_decide_eq_true before) behind)

/-! ## What one item shows -/

/-- What a listing shows of the words from a position on. -/
inductive ShownAt (image : Image) (catalog : Catalog) (position : Nat) : Content → Prop where
  /-- An instruction is shown with the words behind its own, one for each operand. -/
  | instruction {operation : Operation} {kinds : List OperandKind} {values after : List Int}
      (found : decodeAt image catalog position = .ok (some (operation, kinds)))
      (ahead : image.code.toList.drop (position + 1) = values ++ after)
      (kinds_length : (kinds.length : Int) = operation.arity)
      (values_length : (values.length : Int) = operation.arity) :
      ShownAt image catalog position (.instruction operation (kinds.zip values))
  /-- Any other word is shown as a number. -/
  | word {value : Int}
      (unread : decodeAt image catalog position = .ok none)
      (here : image.code[position]? = some value) :
      ShownAt image catalog position (.word value)

/-- The number of addresses from an item to the next one. -/
def Content.span : Content → Int
  | .instruction operation _ => 1 + operation.arity
  | .word _ => 1

/-- The address behind an item. -/
def Item.stop (item : Item) : Int :=
  item.address + item.content.span

/-- Whether an address belongs to an item. -/
def Item.holds (item : Item) (address : Int) : Bool :=
  item.address ≤ address && address < item.stop

theorem Item.holds_iff (item : Item) (address : Int) :
    item.holds address = true ↔ item.address ≤ address ∧ address < item.stop := by
  simp [Item.holds]

section

variable {image : Image} {catalog : Catalog} (bound : image.length ≤ image.code.size)
  {position : Nat} (before : position < image.length)

include bound before

theorem shownAt_of_contentAt
    {content : Content} (shown : contentAt image catalog position = .ok content) :
    ShownAt image catalog position content := by
  have inside : position < image.code.size := by omega
  have here := Array.getElem?_eq_getElem inside
  rcases ahead_of_getElem? here with ⟨after, ahead⟩
  cases decoded : decodeAt image catalog position with
  | error fault =>
      simp only [contentAt, decoded] at shown
      cases shown
  | ok reading =>
      cases reading with
      | none =>
          rw [contentAt_of_undecoded ahead decoded, Except.ok.injEq] at shown
          subst shown
          exact .word decoded here
      | some instruction =>
          rcases instruction with ⟨operation, kinds⟩
          rcases tested_of_decodeAt here decoded with ⟨_, _, arity, _, complete, read⟩
          have count := Instruction.length_of_kindsOfTag read
          have first : ((position : Int) + 1).toNat = position + 1 := by omega
          have last :
              ((position : Int) + 1 + operation.arity).toNat =
                position + 1 + operation.arity.toNat := by
            omega
          simp only [contentAt, decoded, first, last, Array.toList_extract,
            List.extract_eq_take_drop, Nat.add_sub_cancel_left, Except.ok.injEq] at shown
          subst shown
          refine .instruction decoded (List.take_append_drop _ _).symm (by omega) ?_
          rw [List.length_take, List.length_drop, Array.length_toList]
          omega

/-- An item takes up at least one word and none behind the end of the code. -/
theorem ShownAt.bounds {content : Content} (shown : ShownAt image catalog position content) :
    content.span = content.size ∧ 0 < content.span ∧
      position + content.span ≤ image.length := by
  cases shown with
  | word unread here =>
      simp only [Content.span, Content.size]
      omega
  | instruction found ahead kinds_length values_length =>
      have inside : position < image.code.size := by omega
      have tested := tested_of_decodeAt (Array.getElem?_eq_getElem inside) found
      simp only [Content.span, Content.size]
      omega

end

/-! ## All items -/

/-- Items that start at `start`, each where the one before it ends, and end at `stop`. -/
def Chained (start stop : Int) : List Item → Prop
  | [] => start = stop
  | item :: rest => item.address = start ∧ start < item.stop ∧ Chained item.stop stop rest

/-- No item holds an address before the first. -/
theorem Chained.filter_of_lt
    {start stop address : Int} {items : List Item} (chained : Chained start stop items)
    (before : address < start) :
    items.filter (fun item => item.holds address) = [] := by
  induction items generalizing start with
  | nil => rfl
  | cons item rest tailHolds =>
      rcases chained with ⟨rfl, forward, tail⟩
      have outside : ¬ item.holds address = true := by
        rw [Item.holds_iff]
        omega
      rw [List.filter_cons, if_neg outside]
      exact tailHolds tail (by omega)

/-- Each address between the ends belongs to exactly one item. -/
theorem Chained.exists_filter_eq
    {start stop address : Int} {items : List Item} (chained : Chained start stop items)
    (reached : start ≤ address) (inside : address < stop) :
    ∃ item, items.filter (fun item => item.holds address) = [item] := by
  induction items generalizing start with
  | nil =>
      rw [Chained] at chained
      omega
  | cons item rest tailHolds =>
      rcases chained with ⟨rfl, forward, tail⟩
      rw [List.filter_cons]
      by_cases held : address < item.stop
      · rw [if_pos ((item.holds_iff address).mpr ⟨reached, held⟩), tail.filter_of_lt held]
        exact ⟨item, rfl⟩
      · have outside : ¬ item.holds address = true := by
          rw [Item.holds_iff]
          omega
        rw [if_neg outside]
        exact tailHolds tail (Int.not_lt.mp held)

section

variable {image : Image} {catalog : Catalog} (bound : image.length ≤ image.code.size)

include bound

theorem shownAt_of_shows
    {items : List Item} {position : Nat} (shows : Shows image catalog position items) :
    ∀ item ∈ items, ∃ place : Nat,
      item.address = place ∧ ShownAt image catalog place item.content := by
  induction items generalizing position with
  | nil => simp
  | cons item rest tailHolds =>
      rcases shows with ⟨before, place, shown, tail⟩
      rw [← Int.natCast_add] at tail
      rw [List.forall_mem_cons]
      exact ⟨⟨position, place, shownAt_of_contentAt bound before shown⟩, tailHolds tail⟩

/-- The items of a listing end where the code ends. -/
theorem chained_of_shows
    {items : List Item} {position : Nat} (start : position ≤ image.length)
    (shows : Shows image catalog position items) :
    Chained position image.length items := by
  induction items generalizing position with
  | nil => exact Int.le_antisymm start shows
  | cons item rest tailHolds =>
      rcases shows with ⟨before, place, shown, tail⟩
      rcases (shownAt_of_contentAt bound before shown).bounds bound before with
        ⟨span_eq, positive, inside⟩
      have stop_eq : item.stop = (position + item.content.size : Nat) := by
        rw [Item.stop, place]
        omega
      refine ⟨place, by rw [Item.stop, place]; omega, ?_⟩
      rw [stop_eq]
      rw [← Int.natCast_add] at tail
      exact tailHolds (by omega) tail

end

/-! ## The listing -/

/-- The image was loaded from sources or read from a payload. -/
inductive IsProduced (image : Image) : Prop where
  | loaded {catalog : Catalog} {capacity : Int} {assembler : Assembler} {reader : SourceReader}
      {filenames : List String}
      (created : Assembler.create catalog capacity = .ok assembler)
      (loaded : (assembler.load reader filenames).1 = .ok image)
  | decoded {payload : List UInt8} (decoded : Payload.decode payload = .ok image)

theorem IsProduced.length_le {image : Image} (produced : IsProduced image) :
    image.length ≤ image.code.size := by
  cases produced with
  | loaded created loaded =>
      rcases (Program.load_eq_ok_iff created).mp loaded with ⟨items, loads⟩
      have inside := loads.sound.length_le_capacity
      have size := loads.sound.size_eq_capacity
      omega
  | decoded decoded =>
      rcases Payload.decode_eq_ok_iff.mp decoded with ⟨document, trailing, _, rfl⟩
      have described := document.describes_image
      have inside := document.length_le
      have size := described.size_eq
      have length := described.length_eq
      omega

/-- What a document stores has fields of 32 bits. -/
theorem hasWritableParts_document (document : Payload.Document) :
    HasWritableParts document.image := by
  have inside := document.length_le
  have small := document.capacity_le
  have entry_lt := document.entry_lt
  rw [maxCapacity] at small
  rw [Word.modulus] at entry_lt
  have stored {entry : LineRecord} (member : entry ∈ document.image.lines.records) :
      Payload.lineFormat.IsStorable entry :=
    document.lines_storable entry
      ((LineTable.records_foldl_record_perm .empty document.lines).mem_iff.mp member)
  constructor
  case entry =>
    apply Numeral.isWritable_of_natAbs_lt
    show Int.natAbs (document.entry : Int) < _
    omega
  case length =>
    apply Numeral.isWritable_of_natAbs_lt
    show Int.natAbs (document.words.length : Int) < _
    omega
  case words =>
    intro word member
    rcases Array.mem_append.mp member with used | blank
    · exact isWritable_of_fits (document.words_storable word (List.mem_toArray.mp used))
    · rw [(Array.mem_replicate.mp blank).2]
      decide
  case numbers =>
    intro entry member
    exact isWritable_of_fits (stored member).2.1
  case countable =>
    intro entry member
    rcases stored member with ⟨_, _, start, stop⟩
    rw [Word.Fits] at start stop
    rw [AddressRange.IsCountable, AddressRange.maxLength]
    omega

theorem IsProduced.hasWritableParts {image : Image} (produced : IsProduced image) :
    HasWritableParts image := by
  cases produced with
  | loaded created loaded =>
      rcases (Program.load_eq_ok_iff created).mp loaded with ⟨items, loads⟩
      exact loads.hasWritableParts
  | decoded decoded =>
      rcases Payload.decode_eq_ok_iff.mp decoded with ⟨document, trailing, _, rfl⟩
      exact hasWritableParts_document document

/-- The code of an image lies inside its words, or the image comes from where this is so. -/
inductive HoldsItsCode (image : Image) : Prop where
  | bounded (bound : image.length ≤ image.code.size)
  | produced (produced : IsProduced image)

theorem HoldsItsCode.length_le {image : Image} (holds : HoldsItsCode image) :
    image.length ≤ image.code.size := by
  cases holds with
  | bounded bound => exact bound
  | produced produced => exact produced.length_le

/-- A listing shows the items as far as the limits allow, and the items show all of the code. -/
structure ListsCode (image : Image) (catalog : Catalog) (items : List Item) : Prop where
  items_eq : Listing.items image catalog = .ok items
  /-- Behind the lines in front stands each item, with the labels of its address before it. -/
  entries_eq : IsWithinLimits image items →
    entries image catalog =
      .ok (plainHeader image ++
        items.flatMap (fun item =>
          (sortedNames image.labels item.address).map (fun name => "$" ++ name) ++
            [padded (toString item.address) ++ ": " ++ item.content.plainText image.labels ++
              plainNote image item.address]))
  length_plainHeader : (plainHeader image).length = 3
  render_eq : ∀ lines, entries image catalog = .ok lines →
    render image catalog = .ok (String.intercalate "\n" lines)
  /-- Beyond the limits there is no listing, and for no other reason. -/
  eq_error : ¬ IsWithinLimits image items →
    ∃ fault, entries image catalog = .error fault ∧ render image catalog = .error fault ∧
      IsLimitFault fault
  isWithinLimits : IsProduced image → IsWithinLimits image items
  /-- An item shows what is read at its address. -/
  shown : ∀ item ∈ items, ∃ position : Nat,
    item.address = position ∧ ShownAt image catalog position item.content
  eq_nil : image.length ≤ codeStart → items = []
  /-- Each item starts where the one before it ends, and the last one ends with the code. -/
  chained : codeStart < image.length → Chained codeStart image.length items
  /-- Each address in the code belongs to exactly one item. -/
  only : ∀ address, codeStart ≤ address → address < image.length →
    ∃ item, items.filter (fun item => item.holds address) = [item]
  /-- The names in front of an item are those of its address, each of them once. -/
  mem_names_iff : ∀ (address : Int) (name : String),
    name ∈ sortedNames image.labels address ↔ (name, address) ∈ image.labels.items
  names_ascending : ∀ address : Int,
    (sortedNames image.labels address).Pairwise
      (fun left right => codePoints left < codePoints right)

/--
The items of an image tile its code, whatever integers its words, labels and
records are, as long as the code lies inside the words.  The listing shows them
unless a number or a record is beyond the limits, which is never so for an image
that is loaded or decoded.
-/
theorem exists_listsCode
    {catalog : Catalog} (arities : catalog.HasArities)
    {image : Image} (holds : HoldsItsCode image) :
    ∃ items, ListsCode image catalog items := by
  have bound := holds.length_le
  rcases exists_shows arities bound 9 with ⟨items, shows⟩
  have chained (inside : codeStart ≤ image.length) : Chained codeStart image.length items :=
    chained_of_shows bound inside shows
  refine ⟨items, ?_⟩
  constructor
  case items_eq => exact items_of_shows shows
  case entries_eq => exact (yields_entries shows).eq_ok
  case length_plainHeader => rfl
  case render_eq =>
    intro lines listed
    rw [render, listed]
    rfl
  case eq_error =>
    intro beyond
    rcases (yields_entries shows).eq_error beyond with ⟨fault, failed, limit⟩
    refine ⟨fault, failed, ?_, limit⟩
    rw [render, failed]
    rfl
  case isWithinLimits =>
    intro produced
    exact produced.hasWritableParts.isWithinLimits shows
  case shown => exact shownAt_of_shows bound shows
  case eq_nil =>
    intro short
    cases items with
    | nil => rfl
    | cons item rest => exact absurd shows.1 (Int.not_lt.mpr short)
  case chained => exact fun inside => chained (Int.le_of_lt inside)
  case only =>
    intro address reached inside
    exact (chained (by omega)).exists_filter_eq reached inside
  case mem_names_iff => exact mem_sortedNames_iff image.labels
  case names_ascending => exact pairwise_sortedNames image.labels

/--
An instruction with two labels, a label at one of its operands, an integer that is
no word, and an instruction word at the end of the code that has no operand.
-/
def unrulyImage : Image :=
  { Image.blank 14 with
    length := 14
    code := #[0, 0, 0, 0, 0, 0, 0, 0, 0, 1245186, 9, -7, 1099511627776, 65551]
    labels := ((LabelTable.empty.bind "b" 9).bind "a" 9).bind "inner" 11
    lines := LineTable.empty.record ⟨⟨"f", 1⟩, ⟨9, 12⟩⟩ }

theorem exists_listsCode_unrulyImage :
    Catalog.standard.HasArities ∧ HoldsItsCode unrulyImage ∧
      (∃ items,
        ListsCode unrulyImage Catalog.standard items ∧ IsWithinLimits unrulyImage items) ∧
        items unrulyImage Catalog.standard =
          .ok
            [ ⟨9, .instruction ⟨"mov", 2⟩ [(.reference, 9), (.literal, -7)]⟩,
              ⟨12, .word 1099511627776⟩,
              ⟨13, .word 65551⟩ ] := by
  have arities := Catalog.hasArities_standard
  have bound : unrulyImage.length ≤ unrulyImage.code.size := by decide
  have shown :
      (items unrulyImage Catalog.standard).toOption =
        some
          [ ⟨9, .instruction ⟨"mov", 2⟩ [(.reference, 9), (.literal, -7)]⟩,
            ⟨12, .word 1099511627776⟩,
            ⟨13, .word 65551⟩ ] := by
    decide +kernel
  have writable : HasWritableParts unrulyImage :=
    ⟨by decide, by decide, by decide +kernel, by decide +kernel, by decide +kernel⟩
  rcases exists_render writable bound arities with ⟨text, rendered⟩
  rcases exists_listsCode arities (.bounded bound) with ⟨items, lists⟩
  refine ⟨arities, .bounded bound, ⟨items, lists, ?_⟩, Program.eq_ok_of_toOption shown⟩
  apply Classical.byContradiction
  intro beyond
  rcases lists.eq_error beyond with ⟨fault, _, failed, _⟩
  rw [rendered] at failed
  cases failed

/-- A single word, and a line record with more addresses than can be counted. -/
def overlongImage : Image :=
  { Image.blank 10 with
    length := 10
    lines := LineTable.empty.record ⟨⟨"f", 1⟩, ⟨0, AddressRange.maxLength + 1⟩⟩ }

/-- An image with all its code inside its words can be without a listing. -/
theorem render_overlongImage_fails :
    ¬ ∀ (catalog : Catalog) (image : Image), catalog.HasArities →
      image.length ≤ image.code.size → ∃ text, render image catalog = .ok text := by
  intro listed
  rcases listed Catalog.standard overlongImage Catalog.hasArities_standard (by decide) with
    ⟨text, rendered⟩
  have failed : (render overlongImage Catalog.standard).toOption = none := by
    decide +kernel
  rw [rendered] at failed
  cases failed

end Listing

end WordMachine
