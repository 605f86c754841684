import WordMachine.Proofs.Program.Item

/-!
# The bench during the second pass

Every step of the second pass adds warnings and writes words behind the code,
and does nothing else.  `Workbench.remark` and `Workbench.push` are these two
effects, and `Workbench.perform` is what an item amounts to.  They keep the
program on the bench and the soundness of its image, and the words that items
leave in the code stand at the places of their parts.

A remark has the place that the line records give it.  To look for a place counts
the addresses of a record, which only fails for ranges longer than any file can
produce; `Workbench.Sound` keeps this, with the other bounds of a load.
-/

namespace WordMachine

/-! ## Images in good order -/

/--
The code of an image fills its capacity, the part in use starts behind the
registers, and every word outside of it is zero.
-/
structure Image.Sound (image : Image) : Prop where
  codeStart_le_length : codeStart ≤ image.length
  length_le_capacity : image.length ≤ image.capacity
  size_eq_capacity : (image.code.size : Int) = image.capacity
  fits : ∀ word ∈ image.code, Word.Fits word
  blank : ∀ position : Nat, position < image.code.size →
    (position : Int) < codeStart ∨ image.length ≤ position → image.code[position]? = some 0

/-! ## Places -/

/-- The line of the first record that holds an address, if there is one. -/
def Image.placeAt (image : Image) (address : Int) : SourceLine :=
  ((image.lines.atAddress? address).map LineRecord.source).getD .unknown

/-- The addresses of every line record can be counted. -/
def Image.HasCountableLines (image : Image) : Prop :=
  ∀ entry ∈ image.lines.records, entry.range.IsCountable

theorem Image.locate_eq_placeAt
    {image : Image} (countable : image.HasCountableLines) (address : Int) :
    image.locate address = .ok (image.placeAt address) := by
  have found :=
    LineTable.sourceAt?_of_countable fun entry (at_address : image.lines.atAddress? address = _) =>
      countable entry (LineTable.mem_records_of_atAddress? at_address)
  rw [locate, found]
  rfl

namespace Workbench

open Program

/-- The bench with a remark among its warnings. -/
def remark (bench : Workbench) (remark : Remark) : Workbench :=
  { bench with
    image := bench.image.addWarning
      ⟨remark.concern.message, bench.image.placeAt remark.address⟩ }

/-- The bench with several remarks among its warnings. -/
def remarkAll (bench : Workbench) (remarks : List Remark) : Workbench :=
  remarks.foldl remark bench

/-- The bench with the word of a number behind its code. -/
def push (bench : Workbench) (number : Int) : Workbench :=
  { bench with
    image := { bench.image with
      code := bench.image.code.setIfInBounds bench.image.length.toNat (Word.wrap number)
      length := bench.image.length + 1 } }

/-- The bench with the words of several numbers behind its code. -/
def pushAll (bench : Workbench) (numbers : List Int) : Workbench :=
  numbers.foldl push bench

/-- The bench after an item was emitted. -/
def perform (bench : Workbench) (item : Item) : Workbench :=
  (bench.remarkAll (item.remarks bench.image.labels)).pushAll (item.numbers bench.image.labels)

/-! ## What stays -/

/-- The second bench works on the same program as the first. -/
structure SameProgram (before after : Workbench) : Prop where
  tokens_eq : after.tokens = before.tokens
  entry_eq : after.image.entry = before.image.entry
  capacity_eq : after.image.capacity = before.image.capacity
  labels_eq : after.image.labels = before.image.labels
  lines_eq : after.image.lines = before.image.lines

namespace SameProgram

theorem refl (bench : Workbench) : SameProgram bench bench :=
  ⟨rfl, rfl, rfl, rfl, rfl⟩

theorem trans
    {first second third : Workbench}
    (left : SameProgram first second) (right : SameProgram second third) :
    SameProgram first third where
  tokens_eq := right.tokens_eq.trans left.tokens_eq
  entry_eq := right.entry_eq.trans left.entry_eq
  capacity_eq := right.capacity_eq.trans left.capacity_eq
  labels_eq := right.labels_eq.trans left.labels_eq
  lines_eq := right.lines_eq.trans left.lines_eq

theorem hasCountableLines
    {before after : Workbench} (same : SameProgram before after)
    (countable : before.image.HasCountableLines) :
    after.image.HasCountableLines := by
  rw [Image.HasCountableLines, same.lines_eq]
  exact countable

/-- A fold of steps that keep the program keeps the program. -/
theorem foldl
    {α : Type} {step : Workbench → α → Workbench}
    (keeps : ∀ bench input, SameProgram bench (step bench input))
    (bench : Workbench) (inputs : List α) :
    SameProgram bench (inputs.foldl step bench) := by
  induction inputs generalizing bench with
  | nil => exact refl bench
  | cons input rest tailHolds => exact (keeps bench input).trans (tailHolds _)

end SameProgram

theorem sameProgram_remark (bench : Workbench) (remark : Remark) :
    SameProgram bench (bench.remark remark) :=
  ⟨rfl, rfl, rfl, rfl, rfl⟩

theorem sameProgram_push (bench : Workbench) (number : Int) :
    SameProgram bench (bench.push number) :=
  ⟨rfl, rfl, rfl, rfl, rfl⟩

theorem sameProgram_remarkAll (bench : Workbench) (remarks : List Remark) :
    SameProgram bench (bench.remarkAll remarks) :=
  SameProgram.foldl sameProgram_remark bench remarks

theorem sameProgram_pushAll (bench : Workbench) (numbers : List Int) :
    SameProgram bench (bench.pushAll numbers) :=
  SameProgram.foldl sameProgram_push bench numbers

theorem sameProgram_perform (bench : Workbench) (item : Item) :
    SameProgram bench (bench.perform item) :=
  (sameProgram_remarkAll bench _).trans (sameProgram_pushAll _ _)

theorem sameProgram_performAll (bench : Workbench) (items : List Item) :
    SameProgram bench (items.foldl perform bench) :=
  SameProgram.foldl sameProgram_perform bench items

@[simp]
theorem code_remarkAll (bench : Workbench) (remarks : List Remark) :
    (bench.remarkAll remarks).image.code = bench.image.code := by
  induction remarks generalizing bench with
  | nil => rfl
  | cons remark rest tailHolds => exact tailHolds (bench.remark remark)

@[simp]
theorem length_remarkAll (bench : Workbench) (remarks : List Remark) :
    (bench.remarkAll remarks).image.length = bench.image.length := by
  induction remarks generalizing bench with
  | nil => rfl
  | cons remark rest tailHolds => exact tailHolds (bench.remark remark)

@[simp]
theorem remarkAll_append (bench : Workbench) (remarks more : List Remark) :
    bench.remarkAll (remarks ++ more) = (bench.remarkAll remarks).remarkAll more :=
  List.foldl_append

@[simp]
theorem length_pushAll (bench : Workbench) (numbers : List Int) :
    (bench.pushAll numbers).image.length = bench.image.length + numbers.length := by
  induction numbers generalizing bench with
  | nil => simp [pushAll]
  | cons number rest tailHolds =>
      have tail := tailHolds (bench.push number)
      simp only [pushAll, List.foldl_cons, List.length_cons] at tail ⊢
      rw [tail]
      simp only [push]
      omega

theorem pushAll_append (bench : Workbench) (numbers more : List Int) :
    bench.pushAll (numbers ++ more) = (bench.pushAll numbers).pushAll more :=
  List.foldl_append

/-! ## Soundness of the image -/

theorem imageSound_remark
    {bench : Workbench} (sound : bench.image.Sound) (remark : Remark) :
    (bench.remark remark).image.Sound where
  codeStart_le_length := sound.codeStart_le_length
  length_le_capacity := sound.length_le_capacity
  size_eq_capacity := sound.size_eq_capacity
  fits := sound.fits
  blank := sound.blank

theorem length_toNat_lt_of_sound
    {bench : Workbench} (sound : bench.image.Sound)
    (room : bench.image.length < bench.image.capacity) :
    bench.image.length.toNat < bench.image.code.size := by
  have start := sound.codeStart_le_length
  have size := sound.size_eq_capacity
  rw [codeStart] at start
  omega

theorem imageSound_push
    {bench : Workbench} (sound : bench.image.Sound)
    (room : bench.image.length < bench.image.capacity) (number : Int) :
    (bench.push number).image.Sound where
  codeStart_le_length := Int.le_add_one sound.codeStart_le_length
  length_le_capacity := room
  size_eq_capacity := by
    simpa [Workbench.push] using sound.size_eq_capacity
  fits := by
    intro word member
    rcases Array.mem_or_eq_of_mem_setIfInBounds member with old | rfl
    · exact sound.fits word old
    · exact Word.wrap_fits number
  blank := by
    intro position inside outside
    simp only [Workbench.push, Array.size_setIfInBounds] at inside outside ⊢
    have start := sound.codeStart_le_length
    have differs : bench.image.length.toNat ≠ position := by
      rw [codeStart] at start outside
      omega
    rw [Array.getElem?_setIfInBounds_ne differs]
    apply sound.blank position inside
    omega

/--
The image of the bench is in good order, and capacity, entry point and line
records have the bounds that they have after the first pass of a load.
-/
structure Sound (bench : Workbench) : Prop extends Image.Sound bench.image where
  capacity_le : bench.image.capacity ≤ maxCapacity
  base_le : bench.tokens.base ≤ bench.image.length
  entry_le : bench.image.entry ≤ bench.nextAddress
  countable : bench.image.HasCountableLines

theorem Sound.of_sameProgram
    {before after : Workbench} (sound : before.Sound) (same : SameProgram before after)
    (longer : before.image.length ≤ after.image.length) (image : after.image.Sound) :
    after.Sound where
  toSound := image
  capacity_le := same.capacity_eq ▸ sound.capacity_le
  base_le := same.tokens_eq ▸ Int.le_trans sound.base_le longer
  entry_le := by
    rw [same.entry_eq, nextAddress, same.tokens_eq]
    exact sound.entry_le
  countable := same.hasCountableLines sound.countable

theorem Sound.remark {bench : Workbench} (sound : bench.Sound) (remark : Remark) :
    (bench.remark remark).Sound :=
  sound.of_sameProgram (sameProgram_remark bench remark) (Int.le_refl _)
    (imageSound_remark sound.toSound remark)

theorem Sound.push
    {bench : Workbench} (sound : bench.Sound)
    (room : bench.image.length < bench.image.capacity) (number : Int) :
    (bench.push number).Sound :=
  sound.of_sameProgram (sameProgram_push bench number) (Int.le_add_one (Int.le_refl _))
    (imageSound_push sound.toSound room number)

theorem Sound.remarkAll {bench : Workbench} (sound : bench.Sound) (remarks : List Remark) :
    (bench.remarkAll remarks).Sound := by
  induction remarks generalizing bench with
  | nil => exact sound
  | cons remark rest tailHolds => exact tailHolds (sound.remark remark)

theorem Sound.pushAll
    {bench : Workbench} (sound : bench.Sound) {numbers : List Int}
    (room : bench.image.length + numbers.length ≤ bench.image.capacity) :
    (bench.pushAll numbers).Sound := by
  induction numbers generalizing bench with
  | nil => exact sound
  | cons number rest tailHolds =>
      rw [List.length_cons] at room
      apply tailHolds (sound.push (by omega) number)
      simp only [Workbench.push]
      omega

/-! ## The code behind the words written -/

theorem code_push_of_lt
    {bench : Workbench} {position : Nat} (number : Int)
    (below : (position : Int) < bench.image.length) :
    (bench.push number).image.code[position]? = bench.image.code[position]? := by
  simp only [push]
  exact Array.getElem?_setIfInBounds_ne (by omega)

/-- Words that are written leave the words before them as they are. -/
theorem code_pushAll_of_lt
    {bench : Workbench} {position : Nat} (numbers : List Int)
    (below : (position : Int) < bench.image.length) :
    (bench.pushAll numbers).image.code[position]? = bench.image.code[position]? := by
  induction numbers generalizing bench with
  | nil => rfl
  | cons number rest tailHolds =>
      have belowNext : (position : Int) < (bench.push number).image.length := by
        simp only [push]
        omega
      exact (tailHolds belowNext).trans (code_push_of_lt number below)

/-- The word of the number at `index` stands that many places behind the old length. -/
theorem code_pushAll
    {bench : Workbench} (sound : bench.Sound) {numbers : List Int}
    (room : bench.image.length + numbers.length ≤ bench.image.capacity)
    {index : Nat} {number : Int} (found : numbers[index]? = some number) :
    (bench.pushAll numbers).image.code[bench.image.length.toNat + index]? =
      some (Word.wrap number) := by
  have start := sound.codeStart_le_length
  rw [codeStart] at start
  induction numbers generalizing bench index with
  | nil => cases found
  | cons first rest tailHolds =>
      rw [List.length_cons] at room
      have inside := length_toNat_lt_of_sound sound.toSound (by omega)
      cases index with
      | zero =>
          cases found
          have below : (bench.image.length.toNat : Int) < (bench.push number).image.length := by
            simp only [push]
            omega
          show ((bench.push number).pushAll rest).image.code[bench.image.length.toNat]? = _
          rw [code_pushAll_of_lt rest below]
          simp only [push]
          exact Array.getElem?_setIfInBounds_self_of_lt inside
      | succ index =>
          have nextLength : (bench.push first).image.length = bench.image.length + 1 := rfl
          have tail := tailHolds (sound.push (by omega) first)
            (by rw [nextLength]; simp only [push]; omega) found (by rw [nextLength]; omega)
          have place :
              (bench.push first).image.length.toNat + index =
                bench.image.length.toNat + (index + 1) := by
            rw [nextLength]
            omega
          rw [← place]
          exact tail

/-! ## Items -/

/-- Code and length of a bench decide code and length after words are written. -/
theorem pushAll_congr
    {left right : Workbench} (numbers : List Int)
    (sameCode : left.image.code = right.image.code)
    (sameLength : left.image.length = right.image.length) :
    (left.pushAll numbers).image.code = (right.pushAll numbers).image.code ∧
      (left.pushAll numbers).image.length = (right.pushAll numbers).image.length := by
  induction numbers generalizing left right with
  | nil => exact ⟨sameCode, sameLength⟩
  | cons number rest tailHolds =>
      apply tailHolds
      · simp only [push, sameCode, sameLength]
      · simp only [push, sameLength]

/-- A number is written as its word. -/
theorem pushAll_map_wrap (bench : Workbench) (numbers : List Int) :
    bench.pushAll (numbers.map Word.wrap) = bench.pushAll numbers := by
  rw [pushAll, pushAll, List.foldl_map]
  congr 1
  funext bench number
  rw [push, push, Word.wrap_of_fits (Word.wrap_fits number)]

/-- As far as the code goes, items are performed by writing their numbers. -/
theorem code_performAll (bench : Workbench) (items : List Item) :
    (items.foldl perform bench).image.code =
        (bench.pushAll (items.flatMap (Item.numbers bench.image.labels))).image.code ∧
      (items.foldl perform bench).image.length =
        (bench.pushAll (items.flatMap (Item.numbers bench.image.labels))).image.length := by
  induction items generalizing bench with
  | nil => exact ⟨rfl, rfl⟩
  | cons item rest tailHolds =>
      have tail := tailHolds (bench.perform item)
      rw [(sameProgram_perform bench item).labels_eq] at tail
      have written :=
        pushAll_congr
          (item.numbers bench.image.labels ++ rest.flatMap (Item.numbers bench.image.labels))
          (code_remarkAll bench (item.remarks bench.image.labels))
          (length_remarkAll bench (item.remarks bench.image.labels))
      rw [pushAll_append] at written
      rw [List.foldl_cons, List.flatMap_cons]
      exact ⟨tail.1.trans written.1, tail.2.trans written.2⟩

/-- The numbers of items, one for each of their parts. -/
theorem flatMap_numbers (labels : LabelTable) (items : List Item) :
    items.flatMap (Item.numbers labels) =
      (items.flatMap Item.parts).map (Part.number labels) :=
  List.map_flatMap.symm

theorem length_performAll (bench : Workbench) (items : List Item) :
    (items.foldl perform bench).image.length =
      bench.image.length + (items.flatMap Item.parts).length := by
  rw [(code_performAll bench items).2, length_pushAll, flatMap_numbers, List.length_map]

/-- The word of the part at `index` stands that many places behind the old length. -/
theorem code_performAll_part
    {bench : Workbench} (sound : bench.Sound) {items : List Item}
    (room : bench.image.length + (items.flatMap Item.parts).length ≤ bench.image.capacity)
    {index : Nat} {part : Part} (found : (items.flatMap Item.parts)[index]? = some part) :
    (items.foldl perform bench).image.code[bench.image.length.toNat + index]? =
      some (Word.wrap (part.number bench.image.labels)) := by
  rw [(code_performAll bench items).1]
  apply code_pushAll sound
  · rwa [flatMap_numbers, List.length_map]
  · rw [flatMap_numbers, List.getElem?_map, found]
    rfl

theorem Sound.performAll
    {bench : Workbench} (sound : bench.Sound) {items : List Item}
    (room : bench.image.length + (items.flatMap Item.parts).length ≤ bench.image.capacity) :
    (items.foldl perform bench).Sound := by
  induction items generalizing bench with
  | nil => exact sound
  | cons item rest tailHolds =>
      have size : (item.numbers bench.image.labels).length = item.parts.length := by
        simp [Item.numbers]
      rw [List.flatMap_cons, List.length_append] at room
      have performed : (bench.perform item).Sound := by
        apply (sound.remarkAll _).pushAll
        rw [length_remarkAll, (sameProgram_remarkAll bench _).capacity_eq]
        omega
      apply tailHolds performed
      rw [(sameProgram_perform bench item).capacity_eq]
      simp only [perform, length_pushAll, length_remarkAll]
      omega

end Workbench

end WordMachine
