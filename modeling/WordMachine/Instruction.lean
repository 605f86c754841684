import WordMachine.Numeral
import WordMachine.Word

/-!
# Instruction words

The low 16 bits of an instruction word hold the position of its operation in
the catalog.  The bits above form the operand tag: one 4-bit field per
operand, the first operand in the lowest field.  Each operand value follows
in a word of its own.
-/

namespace WordMachine

/-- How the value of an operand is to be used. -/
inductive OperandKind where
  /-- The value itself. -/
  | literal
  /-- The word stored at the address that the value gives. -/
  | memory
  /-- The word whose address is stored at the address that the value gives. -/
  | reference
deriving DecidableEq

namespace OperandKind

/-- The field that stands for a kind in the operand tag. -/
def code : OperandKind → Nat
  | .literal => 1
  | .memory => 2
  | .reference => 3

/-- The kind that a field stands for. -/
def ofCode? (field : Int) : Option OperandKind :=
  if field = 1 then some .literal
  else if field = 2 then some .memory
  else if field = 3 then some .reference
  else none

@[simp]
theorem ofCode?_code (kind : OperandKind) : ofCode? kind.code = some kind := by
  cases kind <;> rfl

end OperandKind

/-- Why an instruction word cannot be written or read. -/
inductive InstructionFault where
  | indexOutOfRange (index : Int)
  | tooManyOperands (count : Nat)
  | invalidKind (field : Int)
deriving DecidableEq

namespace Instruction

/-- The number of operand fields in an instruction word. -/
def maxOperands : Nat := 4

/-- The operand tag of a list of kinds, the first kind in the lowest field. -/
def tag : List OperandKind → Nat
  | [] => 0
  | kind :: rest => kind.code + 16 * tag rest

/-- The instruction word of the operation at `index` with the given operand kinds. -/
def encode (index : Int) (kinds : List OperandKind) : Except InstructionFault Int :=
  if 0 ≤ index ∧ index ≤ 65535 then
    if kinds.length ≤ maxOperands then
      .ok (Word.wrap (tag kinds * 65536 + index))
    else
      .error (.tooManyOperands kinds.length)
  else
    .error (.indexOutOfRange index)

/-- The kinds in the first `count` fields of an operand tag. -/
def kindsOfTag : (count : Nat) → (tag : Nat) → Except InstructionFault (List OperandKind)
  | 0, _ => .ok []
  | count + 1, tag =>
      match OperandKind.ofCode? (tag % 16 : Nat) with
      | none => .error (.invalidKind (tag % 16 : Nat))
      | some kind =>
          match kindsOfTag count (tag / 16) with
          | .error fault => .error fault
          | .ok rest => .ok (kind :: rest)

/--
Read a word as an instruction with `arity` operands: the position of its
operation and the operand kinds.  A negative arity reads no operands.
-/
def decode (word arity : Int) : Except InstructionFault (Nat × List OperandKind) :=
  match kindsOfTag arity.toNat (Word.lowBits word / 65536) with
  | .error fault => .error fault
  | .ok kinds => .ok (Word.lowBits word % 65536, kinds)

end Instruction

/-- The text that reports an instruction fault, if the number in it can be written. -/
def InstructionFault.message? : InstructionFault → Option String
  | .indexOutOfRange index =>
      (Numeral.write index).toOption.map (fun number =>
        "Operation index " ++ number ++ " does not fit in 16 bits")
  | .tooManyOperands count =>
      (Numeral.write count).toOption.map (fun number =>
        "At most " ++ toString Instruction.maxOperands ++
          " operands fit in an instruction, got " ++ number)
  | .invalidKind field =>
      (Numeral.write field).toOption.map (fun number =>
        number ++ " is not a valid OperandKind")

end WordMachine
