import WordMachine.Proofs.Listing.Tiling
import WordMachine.Proofs.Numeral
import WordMachine.Proofs.Program.Labels

/-!
# Labels in a listing

A label may stand between the tokens of an instruction, and is then bound to the
word of an operand.  A listing names the labels of an address in front of the
item that starts there, and no item starts at the word of an operand, so such a
label has no line.  Every other label in the code has one
(`Chained.isOperandWord_iff`): the items tile the code, and each address in it is
either the start of an item or a word behind the first one of an instruction.
-/

namespace WordMachine

namespace Listing

/-! ## Lines of a text -/

/-- The line is one of those that line feeds separate in the text. -/
def HasLine (text line : String) : Prop :=
  line.toList ∈ text.toList.splitOn '\n'

instance (text line : String) : Decidable (HasLine text line) :=
  inferInstanceAs (Decidable (_ ∈ _))

theorem splitOn_append_cons (left right : List Char) :
    (left ++ '\n' :: right).splitOn '\n' = left.splitOn '\n' ++ right.splitOn '\n' :=
  List.splitOnP_append_cons left right (beq_self_eq_true '\n')

theorem mem_splitOn_self {line : List Char} (unbroken : '\n' ∉ line) :
    line ∈ line.splitOn '\n' := by
  have whole : (['\n'].intercalate [line]).splitOn '\n' = [line] :=
    List.splitOn_intercalate '\n' (by simpa using unbroken) (by simp)
  rw [List.intercalate_singleton] at whole
  rw [whole]
  exact List.mem_singleton_self line

theorem mem_splitOn_intercalate
    {lines : List (List Char)} {line : List Char} (member : line ∈ lines)
    (unbroken : '\n' ∉ line) :
    line ∈ (['\n'].intercalate lines).splitOn '\n' := by
  induction lines with
  | nil => cases member
  | cons first rest tailHolds =>
      cases rest with
      | nil =>
          rw [List.intercalate_singleton, ← List.mem_singleton.mp member]
          exact mem_splitOn_self unbroken
      | cons second others =>
          rw [List.intercalate_cons_cons, List.append_assoc, List.singleton_append,
            splitOn_append_cons, List.mem_append]
          rcases List.mem_cons.mp member with rfl | later
          · exact .inl (mem_splitOn_self unbroken)
          · exact .inr (tailHolds later)

/-- What is joined by line feeds has its parts as lines, if they hold no line feed. -/
theorem hasLine_intercalate
    {lines : List String} {line : String} (member : line ∈ lines)
    (unbroken : '\n' ∉ line.toList) :
    HasLine (String.intercalate "\n" lines) line := by
  rw [HasLine, String.toList_intercalate]
  exact mem_splitOn_intercalate (List.mem_map_of_mem member) unbroken

/-! ## Lines of labels -/

theorem head?_padded_ne (number : Int) :
    (padded (toString number)).toList.head? ≠ some '$' := by
  intro head
  have member := List.mem_of_head? head
  simp only [padded, String.toList_append, String.toList_ofList, List.mem_append] at member
  rcases member with blank | digit
  · exact absurd (List.eq_of_mem_replicate blank) (by decide)
  · rcases Numeral.eq_minus_or_isDigit_of_mem_toString digit with minus | isDigit
    · exact absurd minus (by decide)
    · exact absurd isDigit (by decide)

theorem head?_plainLine_ne (image : Image) (item : Item) :
    (plainLine image item).toList.head? ≠ some '$' := by
  have number := head?_padded_ne item.address
  simp only [plainLine, String.toList_append, List.append_assoc]
  cases digits : (padded (toString item.address)).toList with
  | nil => simp
  | cons first rest =>
      rw [digits] at number
      exact number

theorem head?_ne_of_mem_plainHeader
    {image : Image} {line : String} (member : line ∈ plainHeader image) :
    line.toList.head? ≠ some '$' := by
  simp only [plainHeader, List.mem_cons, List.not_mem_nil, or_false] at member
  rcases member with rfl | rfl | rfl
  · simp
  · simp
  · simp

theorem head?_labelLine (name : String) : ("$" ++ name).toList.head? = some '$' := by
  simp

/-- The line of a label stands among the entries exactly if an item starts at the label. -/
theorem mem_plainEntries_iff {image : Image} {items : List Item} {name : String} :
    "$" ++ name ∈ plainEntries image items ↔
      ∃ item ∈ items, (name, item.address) ∈ image.labels.items := by
  rw [plainEntries, List.mem_append, List.mem_flatMap]
  constructor
  · rintro (header | ⟨item, member, shown⟩)
    · exact absurd (head?_labelLine name) (head?_ne_of_mem_plainHeader header)
    · rcases List.mem_append.mp shown with label | line
      · rcases List.mem_map.mp label with ⟨other, sorted, same⟩
        have equal : other = name := by simpa using same
        subst equal
        exact ⟨item, member, (mem_sortedNames_iff _ _ _).mp sorted⟩
      · rw [List.mem_singleton] at line
        exact absurd (line ▸ head?_labelLine name) (head?_plainLine_ne image item)
  · rintro ⟨item, member, bound⟩
    right
    refine ⟨item, member, List.mem_append_left _ ?_⟩
    exact List.mem_map_of_mem ((mem_sortedNames_iff _ _ _).mpr bound)

/-! ## Words of operands -/

/-- The address belongs to an instruction of the listing, behind the first word. -/
def IsOperandWord (items : List Item) (address : Int) : Prop :=
  ∃ item ∈ items, item.IsInstruction ∧ item.address < address ∧ address < item.stop

theorem Chained.lt_stop
    {start stop : Int} {items : List Item} (chained : Chained start stop items) :
    ∀ item ∈ items, item.address < item.stop := by
  induction items generalizing start with
  | nil => simp
  | cons first rest tailHolds =>
      rcases chained with ⟨rfl, forward, tail⟩
      exact List.forall_mem_cons.mpr ⟨forward, tailHolds tail⟩

/-- Only instructions take up more than one word. -/
theorem Item.isInstruction_of_lt
    {item : Item} {address : Int} (behind : item.address < address)
    (inside : address < item.stop) :
    item.IsInstruction := by
  rcases item with ⟨place, content⟩
  cases content with
  | instruction operation operands => exact ⟨operation, operands, rfl⟩
  | word value =>
      simp only [Item.stop, Content.span] at inside behind
      omega

/-- No item starts at the word of an operand, and one starts at every other word. -/
theorem Chained.isOperandWord_iff
    {start stop address : Int} {items : List Item} (chained : Chained start stop items)
    (reached : start ≤ address) (inside : address < stop) :
    IsOperandWord items address ↔ ¬ ∃ item ∈ items, item.address = address := by
  rcases chained.exists_filter_eq reached inside with ⟨holder, only⟩
  have holds_iff : ∀ item, item ∈ items ∧ item.holds address = true ↔ item = holder := by
    intro item
    have kept : item ∈ items.filter (fun item => item.holds address) ↔ item = holder := by
      rw [only, List.mem_singleton]
    rw [← kept, List.mem_filter]
  constructor
  · rintro ⟨item, member, _, behind, within⟩ ⟨other, otherMember, rfl⟩
    have first := (holds_iff item).mp
      ⟨member, (item.holds_iff _).mpr ⟨Int.le_of_lt behind, within⟩⟩
    have second := (holds_iff other).mp
      ⟨otherMember, (other.holds_iff _).mpr ⟨Int.le_refl _, chained.lt_stop other otherMember⟩⟩
    rw [first, second] at behind
    exact Int.lt_irrefl _ behind
  · intro unstarted
    rcases (holds_iff holder).mpr rfl with ⟨member, held⟩
    rcases (holder.holds_iff address).mp held with ⟨before, within⟩
    have different : holder.address ≠ address := fun same => unstarted ⟨holder, member, same⟩
    have behind : holder.address < address := by omega
    exact ⟨holder, member, Item.isInstruction_of_lt behind within, behind, within⟩

/-! ## The labels of a load -/

/-- The listing of an image names the labels in its code, except those at words of operands. -/
structure NamesLabels (image : Image) (catalog : Catalog) (items : List Item)
    (lines : List String) (text : String) : Prop where
  items_eq : Listing.items image catalog = .ok items
  entries_eq : entries image catalog = .ok lines
  render_eq : render image catalog = .ok text
  hasLine : ∀ (name : String) (address : Int), (name, address) ∈ image.labels.items →
    codeStart ≤ address → address < image.length →
      ¬ IsOperandWord items address → HasLine text ("$" ++ name)
  /-- The entries, before they are joined, say exactly which labels are left out. -/
  mem_lines_iff : ∀ (name : String) (address : Int), (name, address) ∈ image.labels.items →
    codeStart ≤ address → address < image.length →
      ("$" ++ name ∈ lines ↔ ¬ IsOperandWord items address)

theorem mem_lines_iff_of_chained
    {image : Image} {items : List Item} (chained : Chained codeStart image.length items)
    {name : String} {address : Int} (bound : (name, address) ∈ image.labels.items)
    (reached : codeStart ≤ address) (inside : address < image.length) :
    "$" ++ name ∈ plainEntries image items ↔ ¬ IsOperandWord items address := by
  rw [mem_plainEntries_iff, chained.isOperandWord_iff reached inside, Classical.not_not]
  constructor
  · rintro ⟨item, member, here⟩
    have same : some item.address = some address := by
      rw [← Roster.get?_of_mem here, ← Roster.get?_of_mem bound]
    exact ⟨item, member, Option.some.inj same⟩
  · rintro ⟨item, member, rfl⟩
    exact ⟨item, member, bound⟩

/--
The listing of a loaded image has a line for every label in the code, unless the
label was defined in front of an operand of an instruction that the listing shows.
-/
theorem exists_namesLabels_of_load
    {catalog : Catalog} (arities : catalog.HasArities)
    {capacity : Int} {assembler : Assembler}
    (created : Assembler.create catalog capacity = .ok assembler)
    {reader : SourceReader} {filenames : List String} {image : Image}
    (loaded : (assembler.load reader filenames).1 = .ok image) :
    ∃ items lines text, NamesLabels image catalog items lines text := by
  have bound := (IsProduced.loaded created loaded).length_le
  rcases (Program.load_eq_ok_iff created).mp loaded with ⟨_, loads⟩
  rcases exists_shows arities bound 9 with ⟨items, shows⟩
  have chained : Chained codeStart image.length items :=
    chained_of_shows bound loads.sound.codeStart_le_length shows
  have limits := loads.hasWritableParts.isWithinLimits shows
  refine ⟨items, plainEntries image items,
    String.intercalate "\n" (plainEntries image items), ?_⟩
  constructor
  case items_eq => exact items_of_shows shows
  case entries_eq => exact (yields_entries shows).eq_ok limits
  case render_eq => exact (yields_render shows).eq_ok limits
  case hasLine =>
    intro name address member reached inside unshared
    apply hasLine_intercalate
    · exact (mem_lines_iff_of_chained chained member reached inside).mpr unshared
    · have unbroken := loads.isUnbroken_of_mem_names (List.mem_map_of_mem member)
      rw [String.toList_append, List.mem_append]
      rintro (marker | inName)
      · exact absurd marker (by decide)
      · exact absurd (unbroken _ inName) (by decide)
  case mem_lines_iff =>
    intro name address member reached inside
    exact mem_lines_iff_of_chained chained member reached inside

/-- Labels in front of an instruction, of one of its operands, of a bare word and of nothing. -/
def innerLabelProgram : SourceReader :=
  Program.singleSource "a" "$go mov $inner 1 2 $end -5 $tail"

/-- The listing of that program. -/
def innerLabelText : String :=
  "~ Entry point: 9\n~ Code length: 13 words\n\n" ++
    "$go\n    9: mov 1 2  ~ a:1\n$end\n   12: .word -5  ~ a:1"

theorem exists_load_innerLabelProgram :
    ∃ image,
      ((Assembler.mk Catalog.standard 40 none).load innerLabelProgram ["a"]).1 = .ok image ∧
        render image Catalog.standard = .ok innerLabelText ∧
          image.length = 13 ∧ ("inner", 10) ∈ image.labels.items := by
  have succeeds :
      ((Assembler.mk Catalog.standard 40 none).load innerLabelProgram ["a"]).1.toOption.map
          (fun image =>
            ((render image Catalog.standard).toOption, image.length,
              image.labels.items.drop 8)) =
        some (some innerLabelText, 13, [("go", 9), ("inner", 10), ("end", 12), ("tail", 13)]) := by
    decide +kernel
  rcases Option.map_eq_some_iff.mp succeeds with ⟨image, found, shown⟩
  rcases Prod.mk.inj shown with ⟨text, rest⟩
  rcases Prod.mk.inj rest with ⟨length_eq, labels⟩
  refine ⟨image, Program.eq_ok_of_toOption found, Program.eq_ok_of_toOption text, length_eq, ?_⟩
  apply List.mem_of_mem_drop (i := 8)
  rw [labels]
  decide

theorem namesLabels_innerLabelProgram :
    Catalog.standard.HasArities ∧
      ∃ assembler image,
        Assembler.create Catalog.standard 40 = .ok assembler ∧
          (assembler.load innerLabelProgram ["a"]).1 = .ok image ∧
            render image Catalog.standard = .ok innerLabelText ∧
              ∃ items lines,
                NamesLabels image Catalog.standard items lines innerLabelText := by
  have created : Assembler.create Catalog.standard 40 = .ok ⟨Catalog.standard, 40, none⟩ := rfl
  rcases exists_load_innerLabelProgram with ⟨image, loaded, rendered, _⟩
  rcases exists_namesLabels_of_load Catalog.hasArities_standard created loaded with
    ⟨items, lines, text, names⟩
  have same := names.render_eq
  rw [rendered, Except.ok.injEq] at same
  subst same
  exact ⟨Catalog.hasArities_standard, _, image, created, loaded, rendered, items, lines, names⟩

/-- A label in front of an operand lies in the code and has no line in the listing. -/
theorem render_innerLabelProgram_lacks_label :
    ¬ ∀ (catalog : Catalog) (capacity : Int) (assembler : Assembler) (reader : SourceReader)
        (filenames : List String) (image : Image) (text name : String) (address : Int),
      catalog.HasArities → Assembler.create catalog capacity = .ok assembler →
        (assembler.load reader filenames).1 = .ok image →
          render image catalog = .ok text → (name, address) ∈ image.labels.items →
            codeStart ≤ address → address < image.length → HasLine text ("$" ++ name) := by
  intro named
  rcases exists_load_innerLabelProgram with ⟨image, loaded, rendered, length_eq, bound⟩
  have inside : 10 < image.length := by
    rw [length_eq]
    decide
  have line := named Catalog.standard 40 _ innerLabelProgram ["a"] image innerLabelText "inner" 10
    Catalog.hasArities_standard rfl loaded rendered bound (by decide) inside
  exact absurd line (by decide +kernel)

end Listing

end WordMachine
