import WordMachine.Proofs.Program.Faults
import WordMachine.Proofs.Program.Warnings

/-!
# The place of a lack of room

A program that does not fit is reported at the line of the word that finds no
room.  The words before it have filled the image, so its address is the capacity,
and the place is looked up under that address.  For the word of a token this is
the line the token was read on.  The padding of an instruction that lacks operands
has an address too, but no line was read for it: if the padding finds no room, the
fault names no place at all, although the line of the instruction is known.
-/

namespace WordMachine

namespace Program

/-- The index, among all words of a program, of the first that an image has no room for. -/
def overflowIndex (capacity : Int) : Nat :=
  (capacity - codeStart).toNat

/--
The line that a word of a program belongs to: that of its token, or that of the
instruction which it completes as padding.
-/
inductive BelongsTo (catalog : Catalog) (lines : List PlacedLine) (index : Nat)
    (place : SourceLine) : Prop where
  | token {token : String} (read : (taggedTokens lines)[index]? = some (token, place))
  | padding {item : Item} {position : Nat}
      (last : (parse catalog codeStart (retained (rawTokens lines))).getLast? = some item)
      (behind : (taggedTokens lines).length ≤ index)
      (lacking : index < (taggedTokens lines).length + item.lacking)
      (address_eq : item.address = codeStart + position)
      (read : (taggedTokens lines)[position]? = some (item.head, place))

/-- Whether a lack of room is reported at the line of the word that finds none. -/
structure PlacesOverflow (catalog : Catalog) (capacity : Int) (lines : List PlacedLine)
    (exceeded : Int) (place : SourceLine) : Prop where
  exceeded_eq : exceeded = capacity
  /-- The place is that of the word exactly if the word is that of a token. -/
  belongs_iff :
    (place.filename ≠ "" ∧ BelongsTo catalog lines (overflowIndex capacity) place) ↔
      overflowIndex capacity < (taggedTokens lines).length
  /-- For padding there is no place, although it belongs to a line. -/
  of_padding : (taggedTokens lines).length ≤ overflowIndex capacity →
    place = .unknown ∧
      ∃ due, due.filename ≠ "" ∧ BelongsTo catalog lines (overflowIndex capacity) due

/-! ## Places of addresses -/

theorem placeAt_codeStart_add
    {lines : List PlacedLine} {image : Image}
    (recorded : image.lines = (recordsFrom codeStart lines).foldl LineTable.record .empty)
    (index : Nat) :
    image.placeAt (codeStart + index) =
      ((taggedTokens lines)[index]?.map Prod.snd).getD .unknown := by
  rw [Image.placeAt, atAddress?_codeStart_add recorded, ← map_source_taggedTokens codeStart lines,
    List.getElem?_map]
  cases (taggedTokens (recordedLines (recordsFrom codeStart lines) lines))[index]? with
  | none => rfl
  | some tagged => rfl

/-! ## The word that finds no room -/

/-- The word that finds no room is one of the program, padding included. -/
theorem LacksRoom.overflowIndex_lt
    {catalog : Catalog} {capacity : Int} {reader : SourceReader} {filenames : List String}
    (lacks : LacksRoom catalog capacity reader filenames) :
    overflowIndex capacity <
      (retained (sourceTokens reader filenames)).length +
        lackingAtEnd (parse catalog codeStart (retained (sourceTokens reader filenames))) := by
  rcases lacks with ⟨earlier, item, reaches, overfills⟩
  rcases reaches.split with ⟨later, split⟩
  have total := length_parts_parse catalog codeStart (retained (sourceTokens reader filenames))
  have excess := overfills.excess
  have room := reaches.room
  rw [split, List.flatMap_append, List.flatMap_cons, List.length_append,
    List.length_append] at total
  rw [split, overflowIndex]
  omega

/-- Padding belongs to the line of the last instruction. -/
theorem exists_belongsTo_of_padding
    {catalog : Catalog} (arities : catalog.HasArities) {lines : List PlacedLine} {index : Nat}
    (behind : (taggedTokens lines).length ≤ index)
    (lacking : index < (taggedTokens lines).length +
      lackingAtEnd (parse catalog codeStart (retained (rawTokens lines)))) :
    ∃ place, (∃ token ∈ taggedTokens lines, token.2 = place) ∧
      BelongsTo catalog lines index place := by
  cases last : (parse catalog codeStart (retained (rawTokens lines))).getLast? with
  | none =>
      simp only [lackingAtEnd, last] at lacking
      omega
  | some item =>
      simp only [lackingAtEnd, last] at lacking
      rcases exists_index_of_mem_parse arities (List.mem_of_getLast? last) with
        ⟨position, address_eq, here⟩
      rcases exists_source_of_getElem? here with ⟨source, read⟩
      exact ⟨source, ⟨_, List.mem_of_getElem? read, rfl⟩,
        .padding last behind lacking address_eq read⟩

/--
A lack of room is reported at the line of the word that finds no room if this is
the word of a token.  If it is padding, then the report names no place.
-/
theorem placesOverflow_of_load
    {catalog : Catalog} (encodable : catalog.IsEncodable)
    {capacity : Int} {assembler : Assembler}
    (created : Assembler.create catalog capacity = .ok assembler)
    {reader : SourceReader} (nameless : ∀ bytes, reader "" ≠ .ok bytes)
    {filenames : List String}
    (texts : ∀ filename ∈ filenames, ∃ text, readText reader filename = .ok text)
    {exceeded : Int} {place : SourceLine}
    (failed : (assembler.load reader filenames).1 = .error (.capacityExceeded exceeded place)) :
    PlacesOverflow catalog capacity (filenames.flatMap (sourceLines reader)) exceeded place := by
  have named : ∀ token ∈ taggedTokens (filenames.flatMap (sourceLines reader)),
      token.2.filename ≠ "" :=
    fun token member => filename_ne_empty nameless member
  have ways := @load_of_texts catalog encodable capacity assembler created reader filenames texts
  rw [failed] at ways
  rcases ways with ⟨image, ⟨⟩⟩ | ⟨lacks, same⟩ | ⟨long, _, ⟨⟩⟩
  cases same
  have large := (create_eq_ok_iff.mp created).1
  have address : capacity = codeStart + (overflowIndex capacity : Int) := by
    rw [overflowIndex]
    omega
  have inside := lacks.overflowIndex_lt
  rw [← rawTokens_sourceLines, ← length_taggedTokens] at inside
  have located := placeAt_codeStart_add (lines_surveyed capacity reader filenames)
    (overflowIndex capacity)
  rw [← address] at located
  constructor
  case exceeded_eq => rfl
  case belongs_iff =>
    constructor
    · rintro ⟨placed, _⟩
      apply Nat.not_le.mp
      intro behind
      rw [located, List.getElem?_eq_none behind] at placed
      exact placed rfl
    · intro before
      have read := List.getElem?_eq_getElem before
      rw [located, read]
      exact ⟨named _ (List.mem_of_getElem? read), .token read⟩
  case of_padding =>
    intro behind
    rw [located, List.getElem?_eq_none behind]
    rcases exists_belongsTo_of_padding encodable.hasArities behind inside with
      ⟨due, ⟨token, member, rfl⟩, belongs⟩
    exact ⟨rfl, _, named token member, belongs⟩

/-! ## Padding without a place -/

section TightProgram

theorem nameless_tightProgram (bytes : List UInt8) : tightProgram "" ≠ .ok bytes := by
  intro opened
  rw [tightProgram, singleSource, SourceReader.ofContents_eq_ok_iff, if_neg (by decide)] at opened
  cases opened.1

theorem texts_tightProgram :
    ∀ filename ∈ ["a"], ∃ text, readText tightProgram filename = .ok text := by
  rw [List.forall_mem_singleton]
  have opened : tightProgram "a" = .ok (Text.Utf8.encode "mov *x ~ y") :=
    singleSource_known (by decide)
  exact ⟨_, readText_eq_ok (by decide) opened⟩

/-- The program takes up twelve words, the last of them for an operand that it lacks. -/
theorem load_tightProgram
    {capacity : Int} (large : codeStart < capacity) (small : capacity < 12) :
    (Assembler.load ⟨Catalog.standard, capacity, none⟩ tightProgram ["a"]).1 =
      .error (.capacityExceeded capacity
        ((surveyed capacity tightProgram ["a"]).image.placeAt capacity)) := by
  have created :
      Assembler.create Catalog.standard capacity = .ok ⟨Catalog.standard, capacity, none⟩ :=
    create_eq_ok_iff.mpr ⟨large, by rw [maxCapacity]; omega, rfl⟩
  have tokens : sourceTokens tightProgram ["a"] = ["mov", "*x"] := by decide +kernel
  apply capacityExceeded_of_excess Catalog.isEncodable_standard created texts_tightProgram
  · rw [tokens]
    intro token member
    apply Numeral.isShort_of_length_le
    revert token
    decide
  · have size : programSize Catalog.standard (retained ["mov", "*x"]) = 12 := by decide +kernel
    rw [tokens, size]
    exact small

theorem load_tightProgram_token :
    (Assembler.load ⟨Catalog.standard, 10, none⟩ tightProgram ["a"]).1 =
      .error (.capacityExceeded 10 ⟨"a", 1⟩) := by
  have place : (surveyed 10 tightProgram ["a"]).image.placeAt 10 = ⟨"a", 1⟩ := by decide +kernel
  rw [load_tightProgram (by decide) (by decide), place]

theorem load_tightProgram_padding :
    (Assembler.load ⟨Catalog.standard, 11, none⟩ tightProgram ["a"]).1 =
      .error (.capacityExceeded 11 .unknown) := by
  have place : (surveyed 11 tightProgram ["a"]).image.placeAt 11 = .unknown := by decide +kernel
  rw [load_tightProgram (by decide) (by decide), place]

end TightProgram

/-- With one word less the operand finds no room, which is placed; with one more, the padding. -/
theorem placesOverflow_tightProgram :
    Catalog.standard.IsEncodable ∧
      (∀ bytes, tightProgram "" ≠ .ok bytes) ∧
        (∀ filename ∈ ["a"], ∃ text, readText tightProgram filename = .ok text) ∧
          ∃ smaller larger,
            Assembler.create Catalog.standard 10 = .ok smaller ∧
              Assembler.create Catalog.standard 11 = .ok larger ∧
                (smaller.load tightProgram ["a"]).1 = .error (.capacityExceeded 10 ⟨"a", 1⟩) ∧
                  (larger.load tightProgram ["a"]).1 = .error (.capacityExceeded 11 .unknown) ∧
                    PlacesOverflow Catalog.standard 10 (["a"].flatMap (sourceLines tightProgram))
                        10 ⟨"a", 1⟩ ∧
                      PlacesOverflow Catalog.standard 11
                        (["a"].flatMap (sourceLines tightProgram)) 11 .unknown := by
  have encodable := Catalog.isEncodable_standard
  exact ⟨encodable, nameless_tightProgram, texts_tightProgram, _, _, rfl, rfl,
    load_tightProgram_token, load_tightProgram_padding,
    placesOverflow_of_load encodable rfl nameless_tightProgram texts_tightProgram
      load_tightProgram_token,
    placesOverflow_of_load encodable rfl nameless_tightProgram texts_tightProgram
      load_tightProgram_padding⟩

/-- A lack of room is not always reported at a line: padding that finds none has no place. -/
theorem load_tightProgram_has_no_place :
    ¬ ∀ (catalog : Catalog) (capacity : Int) (assembler : Assembler) (reader : SourceReader)
        (filenames : List String) (exceeded : Int) (place : SourceLine),
      catalog.IsEncodable → Assembler.create catalog capacity = .ok assembler →
        (∀ bytes, reader "" ≠ .ok bytes) →
          (∀ filename ∈ filenames, ∃ text, readText reader filename = .ok text) →
            (assembler.load reader filenames).1 = .error (.capacityExceeded exceeded place) →
              place.filename ≠ "" ∧
                BelongsTo catalog (filenames.flatMap (sourceLines reader))
                  (overflowIndex capacity) place := by
  intro placed
  have named := (placed Catalog.standard 11 _ tightProgram ["a"] 11 .unknown
    Catalog.isEncodable_standard rfl nameless_tightProgram texts_tightProgram
    load_tightProgram_padding).1
  exact named rfl

end Program

end WordMachine
