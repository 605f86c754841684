/-!
# Signed positions in a sequence

A non-negative index counts from the front of a sequence and a negative one
from its back: `-1` is the last element.  An index that reaches beyond either
end denotes nothing.
-/

namespace WordMachine

namespace SignedIndex

/-- The position that a signed index denotes among `size` elements. -/
def resolve? (size : Nat) (index : Int) : Option Nat :=
  let position := if index < 0 then index + size else index
  if 0 ≤ position ∧ position < size then some position.toNat else none

@[simp]
theorem resolve?_natCast {size position : Nat} (inside : position < size) :
    resolve? size position = some position := by
  have notNegative : ¬ (position : Int) < 0 := by omega
  simp only [resolve?, notNegative, if_false]
  split
  · simp
  · omega

/-- The number of leading elements that a signed end position selects. -/
def frontCount (size : Nat) (stop : Int) : Nat :=
  (if stop < 0 then stop + size else stop).toNat

end SignedIndex

end WordMachine
