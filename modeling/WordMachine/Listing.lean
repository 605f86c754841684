import WordMachine.Catalog
import WordMachine.Image
import WordMachine.Instruction
import WordMachine.Numeral

/-!
# Listings

A listing shows the code of an image item by item.  A word that can be read
as an instruction, with all its operands inside the code, is shown with its
mnemonic and operands and takes up the operand words; any other word is shown
as a number.  Before an item stand the labels of its address, and behind it
the source line that produced it.

A listing is written from its first line to its last, and the first number that
is too long to be written ends it, as does a line record whose addresses cannot
be counted.
-/

namespace WordMachine

/-- Why a listing cannot be made. -/
inductive ListingFault where
  /-- The length of the image reaches beyond its words. -/
  | missingWord
  /-- The catalog gives an operation a negative number of operands. -/
  | negativeArity
  /-- A number has too many digits to be written. -/
  | longNumeral (fault : LongNumeral)
  /-- The addresses of a line record are not counted. -/
  | range (fault : LengthFault)
deriving DecidableEq

/-- The text that reports a listing fault, if it has one. -/
def ListingFault.message? : ListingFault → Option String
  | .missingWord => some "list index out of range"
  | .negativeArity => some "negative shift count"
  | .longNumeral _ => none
  | .range fault => some fault.message

namespace Listing

/-- The operation and operand kinds of the word at an address, if it reads as an instruction. -/
def decodeAt (image : Image) (catalog : Catalog) (address : Int) :
    Except ListingFault (Option (Operation × List OperandKind)) :=
  match SignedIndex.resolve? image.code.size address >>= (image.code[·]?) with
  | none => .error .missingWord
  | some word =>
      if word < 0 then
        .ok none
      else
        match catalog[word.toNat % 65536]? with
        | none => .ok none
        | some operation =>
            let tag := word.toNat / 65536
            if operation.arity < 0 then
              .error .negativeArity
            else if tag >>> (4 * operation.arity.toNat) ≠ 0 ∨
                image.length ≤ address + operation.arity then
              .ok none
            else
              match Instruction.kindsOfTag operation.arity.toNat tag with
              | .error _ => .ok none
              | .ok kinds => .ok (some (operation, kinds))

/-- What an item of a listing shows. -/
inductive Content where
  | instruction (operation : Operation) (operands : List (OperandKind × Int))
  | word (value : Int)
deriving DecidableEq

/-- The number of words that an item takes up. -/
def Content.size : Content → Nat
  | .instruction operation _ => 1 + operation.arity.toNat
  | .word _ => 1

/-- An item of a listing. -/
structure Item where
  address : Int
  content : Content
deriving DecidableEq

/-- The content of the item at an address. -/
def contentAt (image : Image) (catalog : Catalog) (address : Int) :
    Except ListingFault Content :=
  match decodeAt image catalog address with
  | .error fault => .error fault
  | .ok (some (operation, kinds)) =>
      let values := (image.code.extract (address + 1).toNat
        (address + 1 + operation.arity).toNat).toList
      .ok (.instruction operation (kinds.zip values))
  | .ok none =>
      match SignedIndex.resolve? image.code.size address >>= (image.code[·]?) with
      | none => .error .missingWord
      | some word => .ok (.word word)

theorem Content.size_pos (content : Content) : 0 < content.size := by
  cases content with
  | instruction operation operands =>
      simp only [Content.size]
      omega
  | word value => exact Nat.one_pos

/--
Visit the items from an address up to the end of the code and collect the results
behind those found before.  An item is visited before the next one is looked for.
-/
def visitFrom {α : Type} (image : Image) (catalog : Catalog)
    (visit : Item → Except ListingFault α) (found : Array α) (address : Int) :
    Except ListingFault (Array α) :=
  if address < image.length then
    match contentAt image catalog address with
    | .error fault => .error fault
    | .ok content =>
        match visit ⟨address, content⟩ with
        | .error fault => .error fault
        | .ok result =>
            visitFrom image catalog visit (found.push result) (address + content.size)
  else
    .ok found
termination_by (image.length - address).toNat
decreasing_by
  have := content.size_pos
  omega

/-- The items of an image. -/
def items (image : Image) (catalog : Catalog) : Except ListingFault (List Item) :=
  (visitFrom image catalog .ok #[] codeStart).map Array.toList

/-! ## Text -/

/-- The text of a number. -/
def numberText (number : Int) : Except ListingFault String :=
  (Numeral.write number).mapError .longNumeral

/-- The text of an address operand: the first label bound to it, or else the number. -/
def addressText (labels : LabelTable) (value : Int) : Except ListingFault String :=
  match labels.namesAt value with
  | [] => numberText value
  | name :: _ => if name = "" then numberText value else .ok name

/-- The text of an operand. -/
def operandText (labels : LabelTable) : OperandKind × Int → Except ListingFault String
  | (.reference, value) => do return "*" ++ (← addressText labels value)
  | (.memory, value) => addressText labels value
  | (.literal, value) => numberText value

/-- The text of what an item shows. -/
def Content.text (labels : LabelTable) : Content → Except ListingFault String
  | .instruction operation operands => do
      let texts ← operands.mapM (operandText labels)
      return String.intercalate " " (operation.name :: texts)
  | .word value => do return ".word " ++ (← numberText value)

/-- A text with blanks in front of it up to a width of five. -/
def padded (text : String) : String :=
  String.ofList (List.replicate (5 - text.length) ' ') ++ text

/-- The note behind an item that names its source line. -/
def sourceNote (image : Image) (address : Int) : Except ListingFault String :=
  match image.lines.sourceAt? address with
  | .error fault => .error (.range fault)
  | .ok none => .ok ""
  | .ok (some source) => do
      let number ← numberText source.number
      return "  ~ " ++ source.filename ++ ":" ++ number

/-- The line of an item. -/
def itemLine (image : Image) (item : Item) : Except ListingFault String := do
  let text ← item.content.text image.labels
  let note ← sourceNote image item.address
  let address ← numberText item.address
  return padded address ++ ": " ++ text ++ note

/-- The names bound to an address in the order of their code points. -/
def sortedNames (labels : LabelTable) (address : Int) : List String :=
  (labels.namesAt address).mergeSort (fun left right => decide (left ≤ right))

/-- The lines of an item: its labels and then the item. -/
def itemLines (image : Image) (item : Item) : Except ListingFault (List String) := do
  let line ← itemLine image item
  return (sortedNames image.labels item.address).map (fun name => "$" ++ name) ++ [line]

/-- The lines in front of the first item. -/
def headerLines (image : Image) : Except ListingFault (List String) := do
  let entry ← numberText image.entry
  let length ← numberText image.length
  return ["~ Entry point: " ++ entry, "~ Code length: " ++ length ++ " words", ""]

/-- The entries of a listing, which the text shows on lines of their own. -/
def entries (image : Image) (catalog : Catalog) : Except ListingFault (List String) := do
  let header ← headerLines image
  let shown ← visitFrom image catalog (itemLines image) #[] codeStart
  return header ++ shown.toList.flatten

/-- The text of a listing. -/
def render (image : Image) (catalog : Catalog) : Except ListingFault String :=
  (entries image catalog).map (String.intercalate "\n")

end Listing

end WordMachine
