/-!
# Machine words

The machine computes on signed 32-bit words.  Every integer is congruent
modulo `2 ^ 32` to exactly one of them, and `Word.wrap` selects it.  Words
are kept as integers in the stated range, so that values read from source
text, which may be of any size, need no conversion before they are wrapped.
-/

namespace WordMachine

namespace Word

/-- The number of different words. -/
def modulus : Nat := 4294967296

/-- The range of a signed word. -/
def Fits (value : Int) : Prop :=
  -2147483648 ≤ value ∧ value < 2147483648

instance (value : Int) : Decidable (Fits value) :=
  inferInstanceAs (Decidable (_ ∧ _))

/-- The signed word congruent to an integer. -/
def wrap (value : Int) : Int :=
  Int.bmod value modulus

/-- The low 32 bits of an integer, read without a sign. -/
def lowBits (value : Int) : Nat :=
  (value % modulus).toNat

theorem wrap_fits (value : Int) : Fits (wrap value) := by
  simp only [Fits, wrap, modulus, Int.bmod]
  omega

theorem wrap_of_fits {value : Int} (inRange : Fits value) : wrap value = value := by
  simp only [Fits] at inRange
  simp only [wrap, modulus, Int.bmod]
  omega

theorem wrap_emod (value : Int) : wrap value % modulus = value % modulus := by
  simp [wrap]

@[simp]
theorem wrap_zero : wrap 0 = 0 := by
  decide

theorem lowBits_lt (value : Int) : lowBits value < modulus := by
  simp only [lowBits, modulus]
  omega

end Word

end WordMachine
