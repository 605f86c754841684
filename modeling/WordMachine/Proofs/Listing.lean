import WordMachine.Listing
import WordMachine.Proofs.Instruction
import WordMachine.Proofs.Program.Parse

/-!
# Laws of listings

A listing finds the boundaries of items in the words alone.  Items that show
the code from its start, each where the one before it ends, are what it finds.
An instruction word in front of as many words as its operation has operands is
shown as that instruction, with the kinds that the word was made of.
-/

namespace WordMachine

namespace Listing

/-! ## One item -/

section

variable {image : Image} {position : Nat} {word : Int} {after : List Int}
  (ahead : image.code.toList.drop position = word :: after)

include ahead

theorem wordAt_of_ahead :
    (SignedIndex.resolve? image.code.size position >>= (image.code[·]?)) = some word := by
  have here : image.code.toList[position]? = some word := by
    rw [← List.head?_drop, ahead, List.head?_cons]
  have inside := (List.getElem?_eq_some_iff.mp here).1
  rw [Array.length_toList] at inside
  rw [SignedIndex.resolve?_natCast inside, Option.bind_eq_bind, Option.bind_some,
    ← Array.getElem?_toList, here]

/-- A word that is not read as an instruction is shown as a number. -/
theorem contentAt_of_undecoded
    {catalog : Catalog} (undecoded : decodeAt image catalog position = .ok none) :
    contentAt image catalog position = .ok (.word word) := by
  simp only [contentAt, undecoded, wordAt_of_ahead ahead]

end

section

variable {image : Image} {catalog : Catalog} {position index : Nat}
  {operation : Operation} {kinds : List OperandKind} {after : List Int}
  (small : index < 65536) (listed : catalog[index]? = some operation)
  (complete : (kinds.length : Int) = operation.arity)
  (inside : position + operation.arity < image.length)

include small listed complete inside

/-- An instruction word with room for its operands is read as what it was made of. -/
theorem decodeAt_of_encoded
    (ahead : image.code.toList.drop position =
      ((Instruction.tag kinds * 65536 + index : Nat) : Int) :: after) :
    decodeAt image catalog position = .ok (some (operation, kinds)) := by
  have low : (Instruction.tag kinds * 65536 + index) % 65536 = index := by omega
  have high : (Instruction.tag kinds * 65536 + index) / 65536 = Instruction.tag kinds := by omega
  have count : operation.arity.toNat = kinds.length := by omega
  have fields :
      ¬ (Instruction.tag kinds >>> (4 * kinds.length) ≠ 0 ∨
        image.length ≤ position + operation.arity) := by
    rw [Instruction.tag_shiftRight]
    omega
  simp only [decodeAt, wordAt_of_ahead ahead]
  rw [if_neg (by omega), Int.toNat_natCast, low, listed]
  simp only
  rw [if_neg (by omega), high, count, if_neg fields, Instruction.kindsOfTag_tag]

/-- It is shown with the kinds it was made of and the words behind it. -/
theorem contentAt_of_encoded
    {values : List Int} (paired : values.length = kinds.length)
    (ahead : image.code.toList.drop position =
      ((Instruction.tag kinds * 65536 + index : Nat) : Int) :: (values ++ after)) :
    contentAt image catalog position = .ok (.instruction operation (kinds.zip values)) := by
  have behind : image.code.toList.drop (position + 1) = values ++ after := by
    rw [← List.tail_drop, ahead, List.tail_cons]
  have first : ((position : Int) + 1).toNat = position + 1 := by omega
  have last : ((position : Int) + 1 + operation.arity).toNat = position + 1 + values.length := by
    omega
  have extracted :
      (image.code.extract (position + 1) (position + 1 + values.length)).toList = values := by
    rw [Array.toList_extract, List.extract_eq_take_drop, behind, Nat.add_sub_cancel_left,
      List.take_left]
  simp only [contentAt, decodeAt_of_encoded small listed complete inside ahead]
  rw [first, last, extracted]

end

/-! ## All items -/

/-- An item that shows an instruction. -/
def Item.IsInstruction (item : Item) : Prop :=
  ∃ operation operands, item.content = .instruction operation operands

/-- Items that show the code from an address up to its end, one behind the other. -/
def Shows (image : Image) (catalog : Catalog) (address : Int) : List Item → Prop
  | [] => image.length ≤ address
  | item :: rest =>
      address < image.length ∧ item.address = address ∧
        contentAt image catalog address = .ok item.content ∧
          Shows image catalog (address + item.content.size) rest

/-- The items are visited one after the other. -/
theorem visitFrom_of_shows
    {α : Type} {image : Image} {catalog : Catalog} {address : Int} {items : List Item}
    (shows : Shows image catalog address items)
    (visit : Item → Except ListingFault α) (found : Array α) :
    visitFrom image catalog visit found address =
      (items.mapM visit).map (fun results => found ++ results.toArray) := by
  induction items generalizing address found with
  | nil =>
      rw [visitFrom, if_neg (Int.not_lt.mpr shows), List.mapM_nil]
      simp [Except.map, pure, Except.pure]
  | cons item rest tailHolds =>
      rcases item with ⟨_, content⟩
      rcases shows with ⟨before, rfl, shown, tail⟩
      rw [visitFrom, if_pos before, shown, List.mapM_cons]
      simp only
      cases visit ⟨_, content⟩ with
      | error fault => rfl
      | ok result =>
          simp only
          rw [tailHolds tail]
          cases rest.mapM visit with
          | error fault => rfl
          | ok results => simp [bind, Except.bind, pure, Except.pure, Except.map]

theorem items_of_shows
    {image : Image} {catalog : Catalog} {items : List Item}
    (shows : Shows image catalog codeStart items) :
    Listing.items image catalog = .ok items := by
  have every : items.mapM (.ok : Item → Except ListingFault Item) = .ok items := by
    simpa [pure, Except.pure] using @List.mapM_pure (Except ListingFault) _ _ _ _ items id
  rw [Listing.items, visitFrom_of_shows shows, every]
  simp [Except.map]

theorem entries_of_shows
    {image : Image} {catalog : Catalog} {items : List Item}
    (shows : Shows image catalog codeStart items) :
    entries image catalog =
      (do
        let header ← headerLines image
        let shown ← items.mapM (itemLines image)
        return header ++ shown.flatten) := by
  rw [entries, visitFrom_of_shows shows]
  cases headerLines image with
  | error fault => rfl
  | ok header =>
      cases items.mapM (itemLines image) with
      | error fault => rfl
      | ok shown => simp [bind, Except.bind, pure, Except.pure, Except.map]

/-! ## Items of every image -/

section

variable {image : Image} {catalog : Catalog} (arities : catalog.HasArities)

include arities

theorem exists_decodeAt
    {position : Nat} {word : Int} {after : List Int}
    (ahead : image.code.toList.drop position = word :: after) :
    ∃ decoded, decodeAt image catalog position = .ok decoded := by
  simp only [decodeAt, wordAt_of_ahead ahead]
  by_cases negative : word < 0
  · exact ⟨none, if_pos negative⟩
  · rw [if_neg negative]
    cases listed : catalog[word.toNat % 65536]? with
    | none => exact ⟨none, rfl⟩
    | some operation =>
        have arity := arities operation (List.mem_of_getElem? listed)
        simp only [if_neg (Int.not_lt.mpr arity)]
        split
        · exact ⟨none, rfl⟩
        · cases Instruction.kindsOfTag operation.arity.toNat (word.toNat / 65536) with
          | error fault => exact ⟨none, rfl⟩
          | ok kinds => exact ⟨some (operation, kinds), rfl⟩

/-- Every word of an image has a content to be shown. -/
theorem exists_contentAt {position : Nat} (inside : position < image.code.size) :
    ∃ content, contentAt image catalog position = .ok content := by
  have ahead := List.drop_eq_getElem_cons (Array.length_toList ▸ inside)
  rcases exists_decodeAt arities ahead with ⟨decoded, decodes⟩
  cases decoded with
  | none => exact ⟨_, contentAt_of_undecoded ahead decodes⟩
  | some instruction =>
      simp only [contentAt, decodes]
      exact ⟨_, rfl⟩

/-- If the code lies inside the words of an image, then all of it can be shown. -/
theorem exists_shows (bound : image.length ≤ image.code.size) (position : Nat) :
    ∃ items, Shows image catalog position items := by
  induction remaining : (image.length - position).toNat using Nat.strongRecOn
    generalizing position with
  | ind remaining shorter =>
      by_cases before : (position : Int) < image.length
      · rcases exists_contentAt arities (by omega : position < image.code.size) with
          ⟨content, shown⟩
        have positive := content.size_pos
        rcases shorter _ (by omega) (position + content.size) rfl with ⟨rest, tail⟩
        rw [Int.natCast_add] at tail
        exact ⟨⟨position, content⟩ :: rest, before, rfl, shown, tail⟩
      · exact ⟨[], Int.not_lt.mp before⟩

end

end Listing

end WordMachine
