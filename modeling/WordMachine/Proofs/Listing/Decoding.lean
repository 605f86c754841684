import WordMachine.Proofs.Instruction.Codec
import WordMachine.Proofs.Listing
import WordMachine.Proofs.Program.Outcome

/-!
# Instructions found in an image

A listing reads words by rules of its own: it takes an integer as it is, refuses
one that is negative, and asks that nothing stands behind the tag fields of the
operation.  For a catalog whose operations have instruction words this finds
exactly the words that writing gives, and the ordinary reading of such a word
agrees with it.  Integers outside the range of a word are never found, although
the ordinary reading accepts them by their low bits.
-/

namespace WordMachine

namespace Listing

/--
A word at a position is the instruction word of an operation of the catalog, and
the operands of the operation lie in the code.
-/
structure HoldsInstruction (image : Image) (catalog : Catalog) (position : Nat) (word : Int)
    (index : Nat) (operation : Operation) (kinds : List OperandKind) : Prop where
  listed : catalog[index]? = some operation
  complete : (kinds.length : Int) = operation.arity
  written : Instruction.encode index kinds = .ok word
  inside : position + operation.arity < image.length

theorem ahead_of_getElem?
    {image : Image} {position : Nat} {word : Int} (here : image.code[position]? = some word) :
    ∃ after, image.code.toList.drop position = word :: after := by
  rw [← Array.getElem?_toList] at here
  rcases List.getElem?_eq_some_iff.mp here with ⟨inside, rfl⟩
  exact ⟨_, List.drop_eq_getElem_cons inside⟩

section

variable {image : Image} {catalog : Catalog} {position : Nat} {word : Int}
  (here : image.code[position]? = some word)

include here

/-- What a listing has tested when it finds an instruction. -/
theorem tested_of_decodeAt
    {operation : Operation} {kinds : List OperandKind}
    (found : decodeAt image catalog position = .ok (some (operation, kinds))) :
    0 ≤ word ∧ catalog[word.toNat % 65536]? = some operation ∧ 0 ≤ operation.arity ∧
      (word.toNat / 65536) >>> (4 * operation.arity.toNat) = 0 ∧
        position + operation.arity < image.length ∧
          Instruction.kindsOfTag operation.arity.toNat (word.toNat / 65536) = .ok kinds := by
  rcases ahead_of_getElem? here with ⟨after, ahead⟩
  simp only [decodeAt, wordAt_of_ahead ahead] at found
  split at found
  case isTrue => cases found
  case isFalse notNegative =>
    cases listed : catalog[word.toNat % 65536]? with
    | none =>
        rw [listed] at found
        cases found
    | some candidate =>
        simp only [listed] at found
        split at found
        case isTrue => cases found
        case isFalse arity =>
          split at found
          case isTrue => cases found
          case isFalse complete =>
            cases read : Instruction.kindsOfTag candidate.arity.toNat (word.toNat / 65536) with
            | error fault =>
                rw [read] at found
                cases found
            | ok fields =>
                simp only [read, Except.ok.injEq, Option.some.injEq, Prod.mk.injEq] at found
                rcases found with ⟨rfl, rfl⟩
                rw [not_or, Decidable.not_not] at complete
                exact ⟨Int.not_lt.mp notNegative, rfl, Int.not_lt.mp arity, complete.1,
                  Int.not_le.mp complete.2, read⟩

/-- A listing finds an instruction exactly where its word was written. -/
theorem decodeAt_eq_some_iff
    (encodable : catalog.IsEncodable) {operation : Operation} {kinds : List OperandKind} :
    decodeAt image catalog position = .ok (some (operation, kinds)) ↔
      ∃ index, HoldsInstruction image catalog position word index operation kinds := by
  constructor
  · intro found
    rcases tested_of_decodeAt here found with ⟨nonneg, listed, arity, rest, inside, read⟩
    have high := Instruction.tag_of_kindsOfTag read rest
    have length_eq := Instruction.length_of_kindsOfTag read
    have bound := (encodable.arity_bounds operation (List.mem_of_getElem? listed)).2
    refine ⟨word.toNat % 65536, listed, by omega, ?_, inside⟩
    rw [Instruction.encode_eq_ok_iff]
    exact ⟨word.toNat % 65536, rfl, by omega, by rw [Instruction.maxOperands]; omega, by omega⟩
  · rintro ⟨index, listed, complete, written, inside⟩
    rcases Instruction.encode_eq_ok_iff.mp written with ⟨_, same, small, _, rfl⟩
    cases same
    rcases ahead_of_getElem? here with ⟨after, ahead⟩
    exact decodeAt_of_encoded small listed complete inside ahead

end

/-- The ordinary reading of an instruction word gives back what was written. -/
theorem HoldsInstruction.decode_eq
    {image : Image} {catalog : Catalog} {position index : Nat} {word : Int}
    {operation : Operation} {kinds : List OperandKind}
    (holds : HoldsInstruction image catalog position word index operation kinds) :
    Instruction.decode word operation.arity = .ok (index, kinds) := by
  rcases Instruction.encode_eq_ok_iff.mp holds.written with ⟨_, same, small, few, rfl⟩
  cases same
  rw [← holds.complete]
  exact Instruction.decode_encoded small few

/-- What a listing reads at a position agrees with how instruction words are written and read. -/
structure AgreesWithCodec (image : Image) (catalog : Catalog) (position : Nat) (word : Int) :
    Prop where
  /-- The reading gives an answer. -/
  answers : ∃ reading, decodeAt image catalog position = .ok reading
  found_iff : ∀ operation kinds,
    decodeAt image catalog position = .ok (some (operation, kinds)) ↔
      ∃ index, HoldsInstruction image catalog position word index operation kinds
  decode_eq : ∀ index operation kinds,
    HoldsInstruction image catalog position word index operation kinds →
      Instruction.decode word operation.arity = .ok (index, kinds)

/--
For a catalog whose operations have instruction words, a listing finds an
instruction at a position exactly if the word there is the one that writing the
instruction gives and its operands lie in the code; reading that word gives the
same index and kinds.
-/
theorem agreesWithCodec_of_getElem?
    {catalog : Catalog} (encodable : catalog.IsEncodable)
    {image : Image} {position : Nat} {word : Int} (here : image.code[position]? = some word) :
    AgreesWithCodec image catalog position word where
  answers := by
    rcases ahead_of_getElem? here with ⟨after, ahead⟩
    exact exists_decodeAt encodable.hasArities ahead
  found_iff := fun _ _ => decodeAt_eq_some_iff here encodable
  decode_eq := fun _ _ _ holds => holds.decode_eq

/-- An instruction word in front of its operands, and an integer with the same low bits. -/
def strayImage : Image :=
  { Image.blank 16 with
    length := 15
    code := #[0, 0, 0, 0, 0, 0, 0, 0, 0, 1245186, 1, 9, 1245186 + 4294967296, 0, 0, 0] }

/-- Both are read as the same instruction, but the listing finds only the first. -/
theorem agreesWithCodec_strayImage :
    Catalog.standard.IsEncodable ∧
      strayImage.code[9]? = some 1245186 ∧
        strayImage.code[12]? = some (1245186 + 4294967296) ∧
          AgreesWithCodec strayImage Catalog.standard 9 1245186 ∧
            AgreesWithCodec strayImage Catalog.standard 12 (1245186 + 4294967296) ∧
              HoldsInstruction strayImage Catalog.standard 9 1245186 2 ⟨"mov", 2⟩
                  [.reference, .literal] ∧
                decodeAt strayImage Catalog.standard 12 = .ok none ∧
                  Instruction.decode (1245186 + 4294967296) 2 =
                    .ok (2, [.reference, .literal]) := by
  have encodable := Catalog.isEncodable_standard
  have first : strayImage.code[9]? = some 1245186 := rfl
  have second : strayImage.code[12]? = some (1245186 + 4294967296) := rfl
  exact ⟨encodable, first, second, agreesWithCodec_of_getElem? encodable first,
    agreesWithCodec_of_getElem? encodable second, ⟨rfl, rfl, rfl, by decide⟩, rfl, rfl⟩

end Listing

end WordMachine
