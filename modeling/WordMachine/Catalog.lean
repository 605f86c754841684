/-!
# Operation catalog

A catalog is an ordered list of operations.  The position of an operation in
its catalog is what an instruction word stores, so a catalog may grow only at
its end.  When two operations share a name, the first one is meant.
-/

namespace WordMachine

/-- An operation of the machine: its mnemonic and the number of its operands. -/
structure Operation where
  name : String
  arity : Int
deriving DecidableEq

/-- An ordered list of operations. -/
abbrev Catalog := List Operation

namespace Catalog

/-- The first operation with the given mnemonic, together with its position. -/
def find? (catalog : Catalog) (name : String) : Option (Nat × Operation) :=
  match catalog.findIdx? (fun operation => operation.name == name) with
  | none => none
  | some index => catalog[index]?.map (fun operation => (index, operation))

/-- The operations of the machine. -/
def standard : Catalog :=
  [ ⟨"nop", 0⟩, ⟨"halt", 0⟩, ⟨"mov", 2⟩,
    ⟨"add", 3⟩, ⟨"sub", 3⟩, ⟨"mul", 3⟩, ⟨"div", 3⟩, ⟨"mod", 3⟩,
    ⟨"and", 3⟩, ⟨"or", 3⟩, ⟨"xor", 3⟩, ⟨"shl", 3⟩, ⟨"shr", 3⟩,
    ⟨"not", 2⟩, ⟨"cmp", 3⟩,
    ⟨"jmp", 1⟩, ⟨"jz", 2⟩, ⟨"jnz", 2⟩, ⟨"call", 1⟩, ⟨"ret", 0⟩,
    ⟨"push", 1⟩, ⟨"pop", 1⟩, ⟨"print", 1⟩, ⟨"read", 1⟩ ]

end Catalog

end WordMachine
