/-!
# Memory layout

Memory is word addressed.  Address `0` never holds a label, so it stands for
a name that was not found.  The registers occupy the addresses after it, and
code starts behind the last register.
-/

namespace WordMachine

/-- The answer of a label look-up that finds nothing. -/
def unresolvedAddress : Int := 0

/-- The registers in order of address. -/
def registers : List (String × Int) :=
  [("a", 1), ("b", 2), ("c", 3), ("d", 4), ("e", 5), ("r", 6), ("sp", 7), ("bp", 8)]

/-- The first address of user code. -/
def codeStart : Int := 9

/-- The largest number of words an image may hold. -/
def maxCapacity : Int := 65536

end WordMachine
