import WordMachine.Workbench.Assembly

/-!
# Properties of every step

The second pass is put together from a few primitive steps, which look at the
bench, add a warning or emit a word.  A property that all of these have and that
sequencing keeps is called stepwise.  It holds of every step that the pass takes,
up to the emission of a whole item, so it has to be shown of the primitive steps
only.  The walk over all items is not among them: it is not put together from a
fixed number of steps, and a property is carried through it by an induction of
its own.
-/

namespace WordMachine

namespace Assembly

/-- A property that the primitive steps have and that sequencing keeps. -/
structure IsStepwise (Holds : {α : Type} → Assembly α → Prop) : Prop where
  of_pure : ∀ {α : Type} (value : α), Holds (pure value : Assembly α)
  of_bind : ∀ {α β : Type} {first : Assembly α} {next : α → Assembly β},
    Holds first → (∀ value, Holds (next value)) → Holds (first >>= next)
  of_warn : ∀ (concern : Concern) (address? : Option Int), Holds (warn concern address?)
  of_fetch : ∀ address : Int, Holds (fetch address)
  of_labelAddress : ∀ spelling : String, Holds (labelAddress spelling)
  of_isLabel : ∀ spelling : String, Holds (isLabel spelling)
  of_endAddress : Holds endAddress
  of_readNumeral : ∀ token : String, Holds (readNumeral token)
  of_instructionWord : ∀ (index : Int) (kinds : List OperandKind),
    Holds (instructionWord index kinds)
  of_emit : ∀ word : Int, Holds (emit word)

namespace IsStepwise

variable {Holds : {α : Type} → Assembly α → Prop} (stepwise : IsStepwise Holds)

include stepwise

theorem emitAll (words : List Int) : Holds (emitAll words) := by
  induction words with
  | nil => exact stepwise.of_pure ()
  | cons word rest tailHolds => exact stepwise.of_bind (stepwise.of_emit word) fun _ => tailHolds

theorem resolveLabel (name : String) (address : Int) : Holds (resolveLabel name address) := by
  apply stepwise.of_bind (stepwise.of_labelAddress name)
  intro value
  split
  · exact stepwise.of_bind (stepwise.of_warn _ _) fun _ => stepwise.of_pure value
  · exact stepwise.of_pure value

theorem parseLiteral (token : String) (address : Int) : Holds (parseLiteral token address) := by
  apply stepwise.of_bind (stepwise.of_readNumeral token)
  intro reading
  split
  · exact stepwise.of_pure reading.value
  · exact stepwise.of_bind (stepwise.of_warn _ _) fun _ => stepwise.of_pure reading.value

theorem assembleOperand (token : String) (address : Int) :
    Holds (assembleOperand token address) := by
  unfold Assembly.assembleOperand
  cases Token.shape token with
  | reference name =>
      exact stepwise.of_bind (stepwise.resolveLabel name address) fun _ => stepwise.of_pure _
  | address name =>
      exact stepwise.of_bind (stepwise.resolveLabel name address) fun _ => stepwise.of_pure _
  | plain =>
      apply stepwise.of_bind (stepwise.of_labelAddress token)
      intro value
      split
      · exact stepwise.of_pure _
      · exact stepwise.of_bind (stepwise.parseLiteral token address) fun _ => stepwise.of_pure _

theorem assembleOperands (address : Int) (count : Nat) :
    Holds (assembleOperands address count) := by
  induction count generalizing address with
  | zero => exact stepwise.of_pure []
  | succ count tailHolds =>
      apply stepwise.of_bind (stepwise.of_fetch address)
      intro token
      apply stepwise.of_bind (stepwise.assembleOperand token address)
      intro operand
      exact stepwise.of_bind (tailHolds (address + 1)) fun _ => stepwise.of_pure _

theorem assembleInstruction (index : Int) (operation : Operation) (address : Int) :
    Holds (assembleInstruction index operation address) := by
  apply stepwise.of_bind stepwise.of_endAddress
  intro stop
  have complete (count : Nat) :
      Holds
        (do
          let present ← Assembly.assembleOperands (address + 1) count
          let operands :=
            present ++ List.replicate (operation.arity.toNat - count) missingOperand
          let word ← instructionWord index (operands.map Prod.fst)
          emit word
          Assembly.emitAll (operands.map Prod.snd)
          return address + 1 + operation.arity) := by
    apply stepwise.of_bind (stepwise.assembleOperands (address + 1) count)
    intro present
    apply stepwise.of_bind (stepwise.of_instructionWord index _)
    intro word
    apply stepwise.of_bind (stepwise.of_emit word)
    intro _
    exact stepwise.of_bind (stepwise.emitAll _) fun _ => stepwise.of_pure _
  -- A warning about missing operands comes first, or else nothing does.
  show Holds (if _ then _ else _)
  split
  · exact stepwise.of_bind (stepwise.of_warn _ _) fun _ => complete _
  · exact complete _

theorem assembleNumber (token : String) (address : Int) :
    Holds (assembleNumber token address) := by
  apply stepwise.of_bind (stepwise.of_isLabel token)
  intro bound
  split
  · apply stepwise.of_bind (stepwise.of_warn _ _)
    intro _
    exact stepwise.of_bind (stepwise.of_readNumeral token) fun _ => stepwise.of_pure _
  · exact stepwise.parseLiteral token address

theorem assembleBareWord (token : String) (address : Int) :
    Holds (assembleBareWord token address) := by
  unfold Assembly.assembleBareWord
  cases Token.shape token with
  | address name => exact stepwise.resolveLabel name address
  | reference name => exact stepwise.assembleNumber token address
  | plain => exact stepwise.assembleNumber token address

theorem assembleItem (catalog : Catalog) (address : Int) :
    Holds (assembleItem catalog address) := by
  apply stepwise.of_bind (stepwise.of_fetch address)
  intro token
  cases catalog.find? token with
  | some entry => exact stepwise.assembleInstruction entry.1 entry.2 address
  | none =>
      apply stepwise.of_bind (stepwise.assembleBareWord token address)
      intro word
      exact stepwise.of_bind (stepwise.of_emit word) fun _ => stepwise.of_pure _

end IsStepwise

end Assembly

end WordMachine
