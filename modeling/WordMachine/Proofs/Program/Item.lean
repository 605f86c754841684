import WordMachine.Workbench.Assembly

/-!
# Programs as items

A declarative reading of the retained tokens, independent of how words are
emitted.  The tokens are cut from left to right into items: an instruction
takes as many of the following tokens as its operation has operands, and any
other token is a bare word.  Each item consists of parts, one for every word
it stands for, and each part has a value under a label table.

`parse` cuts a list of tokens.  `Walk` describes the same reading of an
addressed stream for every catalog: an operation of negative arity sends the
reading back, so that some tokens are read more than once.
-/

namespace WordMachine

/-- The value of a token, and the concern it gives rise to. -/
structure Valuation where
  value : Int
  concern? : Option Concern
deriving DecidableEq

namespace Valuation

/-- A marked reference to a label. -/
def ofLabel (labels : LabelTable) (name : String) : Valuation where
  value := labels.resolve name
  concern? :=
    if labels.resolve name = unresolvedAddress then some (.undefinedLabel name) else none

/-- A token that has to be a number. -/
def ofNumber (token : String) : Except AssemblyFault Valuation :=
  match Numeral.read token with
  | .error fault => .error (.longNumeral fault)
  | .ok reading =>
      .ok ⟨reading.value, if reading.exact then none else some (.invalidNumber token)⟩

/-- A label in the place of a number. -/
def ofBareLabel (token : String) : Except AssemblyFault Valuation :=
  match Numeral.read token with
  | .error fault => .error (.longNumeral fault)
  | .ok reading => .ok ⟨reading.value, some (.bareLabel token)⟩

/-- An operand: a marked reference, a label that has an address, or else a number. -/
def ofOperand (labels : LabelTable) (token : String) : Except AssemblyFault Valuation :=
  match Token.shape token with
  | .reference name => .ok (ofLabel labels name)
  | .address name => .ok (ofLabel labels name)
  | .plain =>
      if labels.resolve token = unresolvedAddress then ofNumber token
      else .ok ⟨labels.resolve token, none⟩

/-- A bare word: the address of a label, or else a number. -/
def ofBareWord (labels : LabelTable) (token : String) : Except AssemblyFault Valuation :=
  match Token.shape token with
  | .address name => .ok (ofLabel labels name)
  | _ => if labels.contains token then ofBareLabel token else ofNumber token

end Valuation

namespace Program

/-- The kind of an operand under a label table. -/
def operandKind (labels : LabelTable) (token : String) : OperandKind :=
  match Token.shape token with
  | .reference _ => .reference
  | .address _ => .literal
  | .plain => if labels.resolve token = unresolvedAddress then .literal else .memory

/-! ## Parts -/

/-- What one word of a program stands for. -/
inductive Part where
  /-- The head of an instruction, with the operands that the source has for it. -/
  | mnemonic (index : Nat) (operation : Operation) (operands : List String)
  | operand (token : String)
  /-- An operand that the source does not have. -/
  | padding
  | bareWord (token : String)
deriving DecidableEq

namespace Part

/-- The token that a part was read from. -/
def token? : Part → Option String
  | .mnemonic _ operation _ => some operation.name
  | .operand token => some token
  | .padding => none
  | .bareWord token => some token

/-- The number that a part denotes; missing operands of an instruction count as literals. -/
def value (labels : LabelTable) : Part → Except AssemblyFault Int
  | .mnemonic index operation operands =>
      (Instruction.encode index
        (operands.map (operandKind labels) ++
          List.replicate (operation.arity.toNat - operands.length) .literal)).mapError
        .instruction
  | .operand token => (Valuation.ofOperand labels token).map Valuation.value
  | .padding => .ok 0
  | .bareWord token => (Valuation.ofBareWord labels token).map Valuation.value

/-- Whether a part denotes a number. -/
def IsReadable (labels : LabelTable) (part : Part) : Prop :=
  ∃ number, part.value labels = .ok number

/-- The number that a readable part denotes. -/
def number (labels : LabelTable) (part : Part) : Int :=
  match part.value labels with
  | .ok number => number
  | .error _ => 0

theorem value_eq_number
    {labels : LabelTable} {part : Part} (readable : part.IsReadable labels) :
    part.value labels = .ok (part.number labels) := by
  rcases readable with ⟨found, value⟩
  simp [number, value]

end Part

/-! ## Items -/

/-- A warning about the token at an address. -/
structure Remark where
  concern : Concern
  address : Int
deriving DecidableEq

/-- What an item of a program consists of. -/
inductive Content where
  | instruction (index : Nat) (operation : Operation) (operands : List String)
  | bareWord (token : String)
deriving DecidableEq

/-- An item of a program and the address of its first token. -/
structure Item where
  address : Int
  content : Content
deriving DecidableEq

/-- The remark that a valuation gives rise to. -/
def remarksOf (valuation : Except AssemblyFault Valuation) (address : Int) : List Remark :=
  match valuation with
  | .ok ⟨_, some concern⟩ => [⟨concern, address⟩]
  | _ => []

/-- The remarks about operands from an address on. -/
def operandRemarks (labels : LabelTable) (address : Int) : List String → List Remark
  | [] => []
  | token :: rest =>
      remarksOf (Valuation.ofOperand labels token) address ++
        operandRemarks labels (address + 1) rest

namespace Item

/-- The address behind an item, where the reading goes on. -/
def next (item : Item) : Int :=
  match item.content with
  | .instruction _ operation _ => item.address + 1 + operation.arity
  | .bareWord _ => item.address + 1

/-- The number of operands that an item lacks. -/
def lacking (item : Item) : Nat :=
  match item.content with
  | .instruction _ operation operands => operation.arity.toNat - operands.length
  | .bareWord _ => 0

/-- The parts of an item, one for each of its words. -/
def parts (item : Item) : List Part :=
  match item.content with
  | .instruction index operation operands =>
      .mnemonic index operation operands ::
        (operands.map .operand ++ List.replicate item.lacking .padding)
  | .bareWord token => [.bareWord token]

/-- The remark about an instruction whose operands the source does not have. -/
def missingRemarks (address : Int) (operation : Operation) (operands : List String) :
    List Remark :=
  if (operands.length : Int) < operation.arity then
    [⟨.missingOperands operation.name operation.arity operands.length, address⟩]
  else
    []

/-- The remarks about an item in the order in which they are made. -/
def remarks (labels : LabelTable) (item : Item) : List Remark :=
  match item.content with
  | .instruction _ operation operands =>
      missingRemarks item.address operation operands ++
        operandRemarks labels (item.address + 1) operands
  | .bareWord token => remarksOf (Valuation.ofBareWord labels token) item.address

/-- The numbers that the parts of an item denote. -/
def numbers (labels : LabelTable) (item : Item) : List Int :=
  item.parts.map (Part.number labels)

end Item

/-- Every part of every item denotes a number. -/
def IsReadable (labels : LabelTable) (items : List Item) : Prop :=
  ∀ item ∈ items, ∀ part ∈ item.parts, part.IsReadable labels

/-! ## Cutting tokens into items -/

/-- Cut tokens into items, of which the first stands at `address`. -/
def parse (catalog : Catalog) (address : Int) : List String → List Item
  | [] => []
  | token :: rest =>
      match catalog.find? token with
      | none => ⟨address, .bareWord token⟩ :: parse catalog (address + 1) rest
      | some (index, operation) =>
          ⟨address, .instruction index operation (rest.take operation.arity.toNat)⟩ ::
            parse catalog (address + 1 + operation.arity) (rest.drop operation.arity.toNat)
termination_by tokens => tokens.length
decreasing_by
  · simp
  · simp only [List.length_cons, List.length_drop]
    omega

/-- The number of operands that the last item lacks. -/
def lackingAtEnd (items : List Item) : Nat :=
  match items.getLast? with
  | none => 0
  | some item => item.lacking

end Program

namespace TokenStream

/-- The tokens at `count` addresses from `address` on, if there are as many. -/
def slice? (stream : TokenStream) (address : Int) : (count : Nat) → Option (List String)
  | 0 => some []
  | count + 1 =>
      match stream.get? address, stream.slice? (address + 1) count with
      | some token, some rest => some (token :: rest)
      | _, _ => none

end TokenStream

namespace Program

/-- The item whose first token stands at an address. -/
def itemAt? (catalog : Catalog) (stream : TokenStream) (address : Int) : Option Item :=
  match stream.get? address with
  | none => none
  | some token =>
      match catalog.find? token with
      | none => some ⟨address, .bareWord token⟩
      | some (index, operation) =>
          (stream.slice? (address + 1)
            (min operation.arity (stream.nextAddress - address - 1)).toNat).map
            (fun operands => ⟨address, .instruction index operation operands⟩)

/-- The items that a reading from an address up to the end of the tokens goes through. -/
inductive Walk (catalog : Catalog) (stream : TokenStream) : Int → List Item → Prop where
  | done {address : Int} (atEnd : stream.nextAddress ≤ address) :
      Walk catalog stream address []
  | step {address : Int} {item : Item} {rest : List Item}
      (before : address < stream.nextAddress)
      (found : itemAt? catalog stream address = some item)
      (tail : Walk catalog stream item.next rest) :
      Walk catalog stream address (item :: rest)

/-! ## Size of the code -/

theorem address_of_itemAt?
    {catalog : Catalog} {stream : TokenStream} {address : Int} {item : Item}
    (found : itemAt? catalog stream address = some item) :
    item.address = address := by
  simp only [itemAt?] at found
  split at found
  · cases found
  · split at found
    · cases found
      rfl
    · rcases Option.map_eq_some_iff.mp found with ⟨_, _, rfl⟩
      rfl

/-- An item has at least as many words as the walk moves on behind it. -/
theorem Item.next_le (item : Item) : item.next ≤ item.address + item.parts.length := by
  rcases item with ⟨address, content⟩
  cases content with
  | bareWord token => simp [Item.next, Item.parts]
  | instruction index operation operands =>
      simp only [Item.next, Item.parts, Item.lacking, List.length_cons, List.length_append,
        List.length_map, List.length_replicate]
      omega

theorem Walk.nextAddress_le
    {catalog : Catalog} {stream : TokenStream} {address : Int} {items : List Item}
    (walk : Walk catalog stream address items) :
    stream.nextAddress ≤ address + (items.flatMap Item.parts).length := by
  induction walk with
  | done atEnd => simpa using atEnd
  | @step address item rest before found tail tailHolds =>
      have moved := item.next_le
      rw [address_of_itemAt? found] at moved
      rw [List.flatMap_cons, List.length_append]
      omega

end Program

end WordMachine
