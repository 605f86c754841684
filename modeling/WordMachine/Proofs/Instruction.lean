import Mathlib.Algebra.Group.Nat.Defs
import WordMachine.Instruction

/-!
# Instruction words

An operation index below `2 ^ 16` and at most four operand kinds have an
instruction word.  No kind fills its field, so the word is not negative, and
index and operand tag are its low and its high half.  The tag in turn gives the
kinds back.

Tags and words are defined as sums.  Since their fields do not overlap, they are
as well the fields shifted to their places and joined bit by bit.
-/

namespace WordMachine

namespace Instruction

theorem code_le_three (kind : OperandKind) : kind.code ≤ 3 := by
  cases kind <;> decide

/-- No tag of at most so many kinds exceeds the tag of so many references. -/
theorem tag_le_tag_references
    {kinds : List OperandKind} {count : Nat} (few : kinds.length ≤ count) :
    tag kinds ≤ tag (List.replicate count .reference) := by
  induction kinds generalizing count with
  | nil => exact Nat.zero_le _
  | cons kind rest tailHolds =>
      cases count with
      | zero => exact (Nat.not_succ_le_zero _ few).elim
      | succ count =>
          have small := code_le_three kind
          have others := tailHolds (Nat.le_of_succ_le_succ few)
          rw [List.replicate_succ, tag, tag, OperandKind.code]
          omega

/-- No bits of a tag stand behind its last field. -/
theorem tag_shiftRight (kinds : List OperandKind) : tag kinds >>> (4 * kinds.length) = 0 := by
  induction kinds with
  | nil => rfl
  | cons kind rest tailHolds =>
      have small := code_le_three kind
      have first : (kind.code + 16 * tag rest) >>> 4 = tag rest := by
        rw [Nat.shiftRight_eq_div_pow]
        omega
      rw [tag, List.length_cons, Nat.mul_succ, Nat.add_comm (4 * rest.length), Nat.shiftRight_add,
        first, tailHolds]

/-- The fields of a tag give back the kinds it was made of. -/
theorem kindsOfTag_tag (kinds : List OperandKind) :
    kindsOfTag kinds.length (tag kinds) = .ok kinds := by
  induction kinds with
  | nil => rfl
  | cons kind rest tailHolds =>
      have small := code_le_three kind
      have low : (kind.code + 16 * tag rest) % 16 = kind.code := by omega
      have high : (kind.code + 16 * tag rest) / 16 = tag rest := by omega
      simp only [List.length_cons, tag, kindsOfTag, low, high, OperandKind.ofCode?_code, tailHolds]

/-- Fields that are joined with bits below them add up with these. -/
theorem foldl_lor_fields
    (kinds : List OperandKind) (position low : Nat) (small : low < 2 ^ (4 * position)) :
    (kinds.zipIdx position).foldl
        (fun bits field => bits ||| field.1.code <<< (4 * field.2)) low =
      tag kinds <<< (4 * position) + low := by
  induction kinds generalizing position low with
  | nil => simp [tag]
  | cons kind rest tailHolds =>
      have joined :
          low ||| kind.code <<< (4 * position) = kind.code <<< (4 * position) + low := by
        rw [Nat.or_comm, Nat.shiftLeft_add_eq_or_of_lt small]
      have nextPlace : 2 ^ (4 * (position + 1)) = 16 * 2 ^ (4 * position) := by
        rw [Nat.mul_succ, Nat.pow_add, Nat.mul_comm]
      have below : kind.code <<< (4 * position) + low < 2 ^ (4 * (position + 1)) := by
        have field : kind.code * 2 ^ (4 * position) ≤ 3 * 2 ^ (4 * position) :=
          Nat.mul_le_mul_right _ (code_le_three kind)
        rw [nextPlace, Nat.shiftLeft_eq]
        omega
      rw [List.zipIdx_cons, List.foldl_cons, joined, tailHolds _ _ below, tag]
      simp only [Nat.shiftLeft_eq]
      rw [nextPlace, Nat.mul_left_comm, Nat.add_mul, Nat.mul_assoc]
      omega

/-- The tag joins the codes of the kinds, each shifted to the place of its field. -/
theorem tag_eq_foldl_lor (kinds : List OperandKind) :
    tag kinds =
      kinds.zipIdx.foldl (fun bits field => bits ||| field.1.code <<< (4 * field.2)) 0 := by
  rw [foldl_lor_fields kinds 0 0 (by decide), Nat.mul_zero, Nat.shiftLeft_zero, Nat.add_zero]

theorem fits_word
    {index : Nat} {kinds : List OperandKind}
    (small : index < 65536) (few : kinds.length ≤ maxOperands) :
    Word.Fits ((tag kinds * 65536 + index : Nat) : Int) := by
  have bound := tag_le_tag_references few
  have largest : tag (List.replicate maxOperands .reference) = 13107 := rfl
  simp only [Word.Fits]
  omega

/-- What fits has the word whose halves are the tag and the index. -/
theorem encode_of_fits
    {index : Nat} {kinds : List OperandKind}
    (small : index < 65536) (few : kinds.length ≤ maxOperands) :
    encode index kinds = .ok ((tag kinds * 65536 + index : Nat) : Int) := by
  have word :
      (tag kinds : Int) * 65536 + index = ((tag kinds * 65536 + index : Nat) : Int) := by
    omega
  rw [encode, if_pos (by omega), if_pos few, word, Word.wrap_of_fits (fits_word small few)]

/-- The word joins the tag, shifted to the high half, and the index in the low half. -/
theorem encode_eq_lor
    {index : Nat} {kinds : List OperandKind}
    (small : index < 65536) (few : kinds.length ≤ maxOperands) :
    encode index kinds = .ok (Word.wrap ((tag kinds <<< 16 ||| index : Nat) : Int)) := by
  have joined : tag kinds <<< 16 ||| index = tag kinds * 65536 + index := by
    rw [← Nat.shiftLeft_add_eq_or_of_lt small, Nat.shiftLeft_eq]
  rw [joined, encode_of_fits small few, Word.wrap_of_fits (fits_word small few)]

theorem length_le_of_encode
    {index word : Int} {kinds : List OperandKind} (encoded : encode index kinds = .ok word) :
    kinds.length ≤ maxOperands := by
  rw [encode] at encoded
  split at encoded
  · split at encoded
    · assumption
    · cases encoded
  · cases encoded

end Instruction

end WordMachine
