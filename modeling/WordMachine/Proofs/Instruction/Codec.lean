import WordMachine.Proofs.Instruction

/-!
# The instruction word codec

Writing refuses an index or a number of operands that the fields cannot hold,
and nothing else.  What it writes is read back as it was, and no two instructions
have one word, not even if they differ in the number of their operands: no kind
has the code zero, so the tag of the shorter one ends earlier.

Reading looks at the low 32 bits of any integer.  It refuses a tag field that is
no kind.  If the fields behind those that were read are zero, then writing what
was read gives back the word that the integer is congruent to.
-/

namespace WordMachine

/-- The code of an operand kind is the field that stands for it, and no other field does. -/
theorem OperandKind.ofCode?_eq_some_iff {field : Nat} {kind : OperandKind} :
    ofCode? field = some kind ↔ field = kind.code := by
  constructor
  · intro read
    simp only [ofCode?] at read
    cases kind with
    | literal => grind [code]
    | memory => grind [code]
    | reference => grind [code]
  · rintro rfl
    exact ofCode?_code kind

theorem OperandKind.ofCode?_eq_none_iff {field : Nat} :
    ofCode? field = none ↔ ¬ (field = 1 ∨ field = 2 ∨ field = 3) := by
  simp only [ofCode?]
  grind

namespace Word

theorem lowBits_natCast {value : Nat} (small : value < modulus) : lowBits value = value := by
  simp only [modulus] at small
  simp only [lowBits, modulus]
  omega

/-- The word of an integer is given by its low bits, if these are a word without a sign. -/
theorem wrap_eq_lowBits {value : Int} (fits : Fits (lowBits value)) :
    wrap value = lowBits value := by
  simp only [Fits, lowBits, modulus] at fits
  simp only [wrap, lowBits, modulus, Int.bmod]
  omega

end Word

namespace Instruction

/-! ## Fields of an operand tag -/

/-- The field of an operand tag at a position. -/
def fieldAt (tag position : Nat) : Nat :=
  (tag >>> (4 * position)) % 16

theorem shiftRight_succ (number count : Nat) :
    number >>> (4 * (count + 1)) = (number / 16) >>> (4 * count) := by
  have first : number >>> 4 = number / 16 := Nat.shiftRight_eq_div_pow number 4
  rw [Nat.mul_succ, Nat.add_comm (4 * count), Nat.shiftRight_add, first]

@[simp]
theorem fieldAt_zero (tag : Nat) : fieldAt tag 0 = tag % 16 :=
  rfl

@[simp]
theorem fieldAt_succ (tag position : Nat) :
    fieldAt tag (position + 1) = fieldAt (tag / 16) position := by
  rw [fieldAt, fieldAt, shiftRight_succ]

/-- The first kind is read from the lowest field, the others from the fields above it. -/
theorem kindsOfTag_succ_eq_ok_iff {count number : Nat} {kinds : List OperandKind} :
    kindsOfTag (count + 1) number = .ok kinds ↔
      ∃ kind rest,
        kinds = kind :: rest ∧ number % 16 = kind.code ∧
          kindsOfTag count (number / 16) = .ok rest := by
  rw [kindsOfTag]
  constructor
  · intro read
    cases first : OperandKind.ofCode? (number % 16 : Nat) with
    | none =>
        rw [first] at read
        cases read
    | some kind =>
        cases others : kindsOfTag count (number / 16) with
        | error fault =>
            rw [first, others] at read
            cases read
        | ok rest =>
            simp only [first, others, Except.ok.injEq] at read
            exact ⟨kind, rest, read.symm, OperandKind.ofCode?_eq_some_iff.mp first, rfl⟩
  · rintro ⟨kind, rest, rfl, first, others⟩
    simp only [first, OperandKind.ofCode?_code, others]

theorem length_of_kindsOfTag
    {count number : Nat} {kinds : List OperandKind}
    (read : kindsOfTag count number = .ok kinds) :
    kinds.length = count := by
  induction count generalizing number kinds with
  | zero =>
      cases read
      rfl
  | succ count tailHolds =>
      rcases kindsOfTag_succ_eq_ok_iff.mp read with ⟨kind, rest, rfl, _, others⟩
      rw [List.length_cons, tailHolds others]

/-- Kinds make up the whole of a tag that has nothing behind their fields. -/
theorem tag_of_kindsOfTag
    {count number : Nat} {kinds : List OperandKind}
    (read : kindsOfTag count number = .ok kinds) (rest : number >>> (4 * count) = 0) :
    tag kinds = number := by
  induction count generalizing number kinds with
  | zero =>
      cases read
      exact rest.symm
  | succ count tailHolds =>
      rcases kindsOfTag_succ_eq_ok_iff.mp read with ⟨kind, others, rfl, first, behind⟩
      rw [shiftRight_succ] at rest
      rw [tag, tailHolds behind rest]
      omega

/-- Reading kinds fails at a field that is no kind, and only there. -/
theorem kindsOfTag_fails_iff {count number : Nat} :
    (∃ fault, kindsOfTag count number = .error fault) ↔
      ∃ position < count, OperandKind.ofCode? (fieldAt number position) = none := by
  induction count generalizing number with
  | zero => simp [kindsOfTag]
  | succ count tailHolds =>
      rw [kindsOfTag]
      constructor
      · rintro ⟨fault, failed⟩
        cases first : OperandKind.ofCode? (number % 16 : Nat) with
        | none => exact ⟨0, Nat.zero_lt_succ count, by rw [fieldAt_zero, first]⟩
        | some kind =>
            cases others : kindsOfTag count (number / 16) with
            | ok rest =>
                rw [first, others] at failed
                cases failed
            | error fault =>
                rcases tailHolds.mp ⟨fault, others⟩ with ⟨position, before, noKind⟩
                exact ⟨position + 1, Nat.succ_lt_succ before, by rw [fieldAt_succ, noKind]⟩
      · rintro ⟨position, before, noKind⟩
        cases first : OperandKind.ofCode? (number % 16 : Nat) with
        | none => exact ⟨_, rfl⟩
        | some kind =>
            cases position with
            | zero =>
                rw [fieldAt_zero, first] at noKind
                cases noKind
            | succ position =>
                rw [fieldAt_succ] at noKind
                rcases tailHolds.mpr ⟨position, Nat.lt_of_succ_lt_succ before, noKind⟩ with
                  ⟨fault, others⟩
                exact ⟨fault, by simp only [others]⟩

/-- Nothing stands behind fields if all fields behind them are zero. -/
theorem shiftRight_eq_zero_of_fieldAt
    {number count : Nat} (limit : Nat) (small : number >>> (4 * limit) = 0)
    (empty : ∀ position, count ≤ position → position < limit → fieldAt number position = 0) :
    number >>> (4 * count) = 0 := by
  induction limit generalizing number count with
  | zero =>
      have zero : number = 0 := small
      rw [zero, Nat.zero_shiftRight]
  | succ limit tailHolds =>
      rw [shiftRight_succ] at small
      cases count with
      | zero =>
          have first := empty 0 (Nat.le_refl 0) (Nat.zero_lt_succ limit)
          have others : (number / 16) >>> (4 * 0) = 0 := by
            apply tailHolds small
            intro position _ before
            rw [← fieldAt_succ]
            exact empty (position + 1) (Nat.zero_le _) (Nat.succ_lt_succ before)
          rw [fieldAt_zero] at first
          simp only [Nat.mul_zero, Nat.shiftRight_zero] at others ⊢
          omega
      | succ count =>
          rw [shiftRight_succ]
          apply tailHolds small
          intro position behind before
          rw [← fieldAt_succ]
          exact empty (position + 1) (Nat.succ_le_succ behind) (Nat.succ_lt_succ before)

/-- Kinds are the same if their tags are: the code of a kind is never zero. -/
theorem tag_injective {left right : List OperandKind} (same : tag left = tag right) :
    left = right := by
  have positive (kind : OperandKind) : 1 ≤ kind.code := by cases kind <;> decide
  induction left generalizing right with
  | nil =>
      cases right with
      | nil => rfl
      | cons kind rest =>
          have := positive kind
          simp only [tag] at same
          omega
  | cons kind rest tailHolds =>
      cases right with
      | nil =>
          have := positive kind
          simp only [tag] at same
          omega
      | cons other others =>
          have small := code_le_three kind
          have otherSmall := code_le_three other
          simp only [tag] at same
          have first : kind.code = other.code := by omega
          have equal : kind = other := by
            have read := OperandKind.ofCode?_code kind
            rw [first, OperandKind.ofCode?_code, Option.some.injEq] at read
            exact read.symm
          rw [equal, tailHolds (by omega : tag rest = tag others)]

/-! ## Words -/

/-- The tag field at a position of a word: four of its low 32 bits, behind the index. -/
def tagField (word : Int) (position : Nat) : Nat :=
  (Word.lowBits word >>> (16 + 4 * position)) &&& 15

theorem tagField_eq_fieldAt (word : Int) (position : Nat) :
    tagField word position = fieldAt (Word.lowBits word / 65536) position := by
  have half : Word.lowBits word >>> 16 = Word.lowBits word / 65536 :=
    Nat.shiftRight_eq_div_pow _ 16
  rw [tagField, Nat.shiftRight_add, half]
  exact Nat.and_two_pow_sub_one_eq_mod _ 4

/-- There is a word exactly for an index and kinds that fit, and it is made of both. -/
theorem encode_eq_ok_iff {index word : Int} {kinds : List OperandKind} :
    encode index kinds = .ok word ↔
      ∃ position : Nat,
        index = position ∧ position < 65536 ∧ kinds.length ≤ maxOperands ∧
          word = (tag kinds * 65536 + position : Nat) := by
  constructor
  · intro written
    have inRange : 0 ≤ index ∧ index ≤ 65535 := by
      apply Decidable.byContradiction
      intro outside
      rw [encode, if_neg outside] at written
      cases written
    have few : kinds.length ≤ maxOperands := by
      apply Decidable.byContradiction
      intro many
      rw [encode, if_pos inRange, if_neg many] at written
      cases written
    rcases Int.eq_ofNat_of_zero_le inRange.1 with ⟨position, rfl⟩
    have small : position < 65536 := by omega
    rw [encode_of_fits small few, Except.ok.injEq] at written
    exact ⟨position, rfl, small, few, written.symm⟩
  · rintro ⟨position, rfl, small, few, rfl⟩
    exact encode_of_fits small few

theorem lowBits_encoded
    {position : Nat} {kinds : List OperandKind}
    (small : position < 65536) (few : kinds.length ≤ maxOperands) :
    Word.lowBits (tag kinds * 65536 + position : Nat) = tag kinds * 65536 + position := by
  apply Word.lowBits_natCast
  have fits := fits_word small few
  simp only [Word.Fits] at fits
  simp only [Word.modulus]
  omega

theorem decode_encoded
    {position : Nat} {kinds : List OperandKind}
    (small : position < 65536) (few : kinds.length ≤ maxOperands) :
    decode (tag kinds * 65536 + position : Nat) kinds.length = .ok (position, kinds) := by
  have low : (tag kinds * 65536 + position) % 65536 = position := by omega
  have high : (tag kinds * 65536 + position) / 65536 = tag kinds := by omega
  simp only [decode, lowBits_encoded small few, Int.toNat_natCast, low, high, kindsOfTag_tag]

theorem decode_eq_ok_iff {word arity : Int} {index : Nat} {kinds : List OperandKind} :
    decode word arity = .ok (index, kinds) ↔
      index = Word.lowBits word % 65536 ∧
        kindsOfTag arity.toNat (Word.lowBits word / 65536) = .ok kinds := by
  rw [decode]
  cases kindsOfTag arity.toNat (Word.lowBits word / 65536) with
  | error fault => simp
  | ok found => simp [eq_comm]

/-- A word is refused at a tag field that is no kind, and only there. -/
theorem decode_fails_iff {word arity : Int} :
    (∃ fault, decode word arity = .error fault) ↔
      ∃ position : Nat,
        (position : Int) < arity ∧
          ¬ (tagField word position = 1 ∨ tagField word position = 2 ∨
            tagField word position = 3) := by
  have kinds :
      (∃ fault, decode word arity = .error fault) ↔
        ∃ fault, kindsOfTag arity.toNat (Word.lowBits word / 65536) = .error fault := by
    rw [decode]
    cases kindsOfTag arity.toNat (Word.lowBits word / 65536) with
    | error fault => simp
    | ok found => simp
  simp only [kinds, kindsOfTag_fails_iff, OperandKind.ofCode?_eq_none_iff, tagField_eq_fieldAt,
    Int.lt_toNat]

/-- No more kinds are read than a word has tag fields. -/
theorem arity_le_of_decode
    {word arity : Int} {read : Nat × List OperandKind} (decoded : decode word arity = .ok read) :
    arity ≤ maxOperands := by
  apply Int.not_lt.mp
  intro many
  rw [maxOperands] at many
  have bound := Word.lowBits_lt word
  rw [Word.modulus] at bound
  have behind : tagField word 4 = 0 := by
    rw [tagField, Nat.shiftRight_eq_div_pow, Nat.div_eq_of_lt bound, Nat.zero_and]
  have refused : ∃ fault, decode word arity = .error fault :=
    decode_fails_iff.mpr ⟨4, many, by simp [behind]⟩
  rcases refused with ⟨fault, failed⟩
  rw [decoded] at failed
  cases failed

/-- What was read is written as the word that the integer is congruent to. -/
theorem encode_decoded
    {word arity : Int} {index : Nat} {kinds : List OperandKind}
    (decoded : decode word arity = .ok (index, kinds))
    (empty : ∀ position : Nat, arity ≤ position → position < maxOperands →
      tagField word position = 0) :
    encode index kinds = .ok (Word.wrap word) := by
  have room := arity_le_of_decode decoded
  rcases decode_eq_ok_iff.mp decoded with ⟨index_eq, read⟩
  have length_eq := length_of_kindsOfTag read
  have bound := Word.lowBits_lt word
  rw [Word.modulus] at bound
  -- The fields that were not read are zero, so the kinds make up the whole high half.
  have rest : (Word.lowBits word / 65536) >>> (4 * arity.toNat) = 0 := by
    apply shiftRight_eq_zero_of_fieldAt maxOperands
    · rw [maxOperands, Nat.shiftRight_eq_div_pow]
      omega
    intro position behind before
    rw [← tagField_eq_fieldAt]
    exact empty position (by omega) before
  have high := tag_of_kindsOfTag read rest
  have whole : tag kinds * 65536 + index = Word.lowBits word := by omega
  have small : index < 65536 := by omega
  have few : kinds.length ≤ maxOperands := by omega
  have fits := fits_word small few
  rw [whole] at fits
  rw [encode_of_fits small few, whole, Word.wrap_eq_lowBits fits]

/-! ## The codec -/

/-- What writing an index and operand kinds as an instruction word amounts to. -/
structure WritesFaithfully (index : Int) (kinds : List OperandKind) : Prop where
  refused_iff :
    (∃ fault, encode index kinds = .error fault) ↔
      ¬ (0 ≤ index ∧ index ≤ 65535) ∨ 4 < kinds.length
  /-- The word is not negative, and it is read back as what was written. -/
  restored : ∀ word, encode index kinds = .ok word →
    0 ≤ word ∧ word < 2147483648 ∧
      ∃ position : Nat, position = index ∧ decode word kinds.length = .ok (position, kinds)
  /-- No other instruction has the word, whatever the number of its operands. -/
  only : ∀ word otherIndex otherKinds, encode index kinds = .ok word →
    encode otherIndex otherKinds = .ok word → otherIndex = index ∧ otherKinds = kinds

/-- What reading an integer as an instruction with so many operands amounts to. -/
structure ReadsFaithfully (word arity : Int) : Prop where
  refused_iff :
    (∃ fault, decode word arity = .error fault) ↔
      ∃ position : Nat,
        (position : Int) < arity ∧
          ¬ (tagField word position = 1 ∨ tagField word position = 2 ∨
            tagField word position = 3)
  /-- If the other tag fields are zero, what was read has the word of the integer. -/
  restored : ∀ index kinds, decode word arity = .ok (index, kinds) →
    (∀ position : Nat, arity ≤ position → position < 4 → tagField word position = 0) →
      encode index kinds = .ok (Word.wrap word)
  /-- That word is the signed one which is congruent to the integer. -/
  congruent : Word.Fits (Word.wrap word) ∧ Word.wrap word % Word.modulus = word % Word.modulus

theorem writesFaithfully (index : Int) (kinds : List OperandKind) :
    WritesFaithfully index kinds where
  refused_iff := by
    rw [encode, maxOperands]
    by_cases inRange : 0 ≤ index ∧ index ≤ 65535
    · by_cases few : kinds.length ≤ 4
      · simp [inRange, few]
      · simp [inRange, few, Nat.lt_of_not_le few]
    · simp [inRange]
  restored := by
    intro word written
    rcases encode_eq_ok_iff.mp written with ⟨position, rfl, small, few, rfl⟩
    have fits := fits_word small few
    rw [Word.Fits] at fits
    exact ⟨Int.natCast_nonneg _, fits.2, position, rfl, decode_encoded small few⟩
  only := by
    intro word otherIndex otherKinds written otherWritten
    rcases encode_eq_ok_iff.mp written with ⟨position, rfl, small, _, rfl⟩
    rcases encode_eq_ok_iff.mp otherWritten with ⟨other, rfl, otherSmall, _, same⟩
    have tags : tag otherKinds = tag kinds := by omega
    exact ⟨by omega, tag_injective tags⟩

theorem readsFaithfully (word arity : Int) : ReadsFaithfully word arity where
  refused_iff := decode_fails_iff
  restored := by
    intro index kinds decoded empty
    exact encode_decoded decoded empty
  congruent := ⟨Word.wrap_fits word, Word.wrap_emod word⟩

/--
Instruction words are a codec: what can be written is read back, no word stands
for two instructions, and what can be read is written as the same word.
-/
theorem writesFaithfully_and_readsFaithfully
    (index : Int) (kinds : List OperandKind) (word arity : Int) :
    WritesFaithfully index kinds ∧ ReadsFaithfully word arity :=
  ⟨writesFaithfully index kinds, readsFaithfully word arity⟩

/-- The first operand has the lowest field above the index. -/
example : encode 7 [.reference, .literal, .memory] = .ok 0x2130007 := rfl

end Instruction

end WordMachine
