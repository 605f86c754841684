import WordMachine.Proofs.Program.Listing
import WordMachine.Proofs.Text.Words

/-!
# Operands as a listing spells them

A listing does not spell operands as the source did: it shows an address by the
first of its labels, a number in decimal whatever it was, and a missing operand
as zero.  All the same the text of an operand is read as this operand, with the
kind and the word that it was emitted with (`reads_plainOperand`).  Labels are
looked up before numbers are read, so this depends on the names of the labels: a
name with a mark, or one that is the text of a number, would be taken for
something else.
-/

namespace WordMachine

/-! ## Names of labels -/

/-- A name that can stand for its label in the place of an operand. -/
structure Label.IsPlain (name : String) : Prop where
  ne_empty : name ≠ ""
  no_star : name.toList.head? ≠ some '*'
  no_ampersand : name.toList.head? ≠ some '&'
  no_marker : name.toList.head? ≠ some Label.marker
  no_colon : name.toList.getLast? ≠ some ':'
  not_number : ∀ number : Int, name ≠ toString number

theorem Token.shape_of_unmarked
    {token : String} (noStar : token.toList.head? ≠ some '*')
    (noAmpersand : token.toList.head? ≠ some '&') :
    Token.shape token = .plain := by
  simp only [shape]
  split
  case h_1 name characters => exact (noStar (by rw [characters]; rfl)).elim
  case h_2 name characters => exact (noAmpersand (by rw [characters]; rfl)).elim
  case h_3 => rfl

theorem Token.shape_star (name : String) : Token.shape ("*" ++ name) = .reference name := by
  have characters : ("*" ++ name).toList = '*' :: name.toList := by
    rw [String.toList_append]
    rfl
  simp only [shape, characters, String.ofList_toList]

/-! ## Texts of numbers -/

theorem ne_of_mem_toString
    {value : Int} {character other : Char} (member : character ∈ (toString value).toList)
    (notMinus : other ≠ '-') (notDigit : other.isDigit = false) :
    character ≠ other := by
  rintro rfl
  rcases Numeral.eq_minus_or_isDigit_of_mem_toString member with minus | digit
  · exact notMinus minus
  · rw [notDigit] at digit
    cases digit

theorem head?_toString_ne
    (value : Int) {other : Char} (notMinus : other ≠ '-') (notDigit : other.isDigit = false) :
    (toString value).toList.head? ≠ some other :=
  fun first => ne_of_mem_toString (List.mem_of_head? first) notMinus notDigit rfl

theorem getLast?_toString_ne
    (value : Int) {other : Char} (notMinus : other ≠ '-') (notDigit : other.isDigit = false) :
    (toString value).toList.getLast? ≠ some other :=
  fun last => ne_of_mem_toString (List.mem_of_getLast? last) notMinus notDigit rfl

theorem Text.isWord_toString (value : Int) : Text.IsWord (toString value) where
  ne_empty := by
    intro empty
    have characters := Numeral.toList_toString value
    rw [empty] at characters
    exact Nat.toDigits_ne_nil (List.append_eq_nil_iff.mp characters.symm).2
  isUnbroken := by
    intro character member
    rcases Numeral.eq_minus_or_isDigit_of_mem_toString member with rfl | digit
    · decide
    · exact isBlank_of_isDigit digit

theorem Numeral.read_toString_of_fits {value : Int} (fits : Word.Fits value) :
    Numeral.read (toString value) = .ok ⟨value, true⟩ := by
  have few : (Nat.toDigits 10 value.natAbs).length ≤ 10 := by
    rw [Nat.length_toDigits_le_iff (by decide) (by decide)]
    simp only [Word.Fits] at fits
    omega
  exact read_toString (Nat.le_trans few (by decide))

/-! ## Tables of plain names -/

/--
A table whose labels can be shown: plain names that are words, and addresses
that are words other than zero, which stands for a label that was not found.
-/
structure LabelTable.IsLegible (labels : LabelTable) : Prop where
  isPlain : ∀ name ∈ labels.names, Label.IsPlain name
  isUnbroken : ∀ name ∈ labels.names, Text.IsUnbroken name
  bounds : ∀ item ∈ labels.items, 1 ≤ item.2 ∧ Word.Fits item.2

namespace LabelTable

variable {labels : LabelTable}

/-- The label that an address is shown by, if it has one. -/
theorem exists_plainAddress_eq
    (legible : labels.IsLegible) {name : String} {address : Int}
    (member : (name, address) ∈ labels.items) :
    ∃ shown, (shown, address) ∈ labels.items ∧ Listing.plainAddress labels address = shown := by
  have here : name ∈ labels.namesAt address :=
    List.mem_map.mpr ⟨_, List.mem_filter.mpr ⟨member, by simp⟩, rfl⟩
  rw [Listing.plainAddress, Listing.labelFor?]
  cases names : labels.namesAt address with
  | nil =>
      rw [names] at here
      cases here
  | cons shown rest =>
      have first : shown ∈ labels.namesAt address := by
        rw [names]
        exact List.mem_cons_self
      rcases List.mem_map.mp first with ⟨item, found, rfl⟩
      rcases List.mem_filter.mp found with ⟨inTable, atAddress⟩
      have bound : item.2 = address := by simpa using atAddress
      have nonempty := (legible.isPlain item.1 (List.mem_map_of_mem inTable)).ne_empty
      subst bound
      exact ⟨item.1, inTable, by simp [Option.filter, nonempty]⟩

theorem plainAddress_zero (legible : labels.IsLegible) :
    Listing.plainAddress labels unresolvedAddress = toString unresolvedAddress := by
  have none : labels.namesAt unresolvedAddress = [] := by
    rw [namesAt, List.map_eq_nil_iff, List.filter_eq_nil_iff]
    intro item member zero
    have positive := (legible.bounds item member).1
    rw [beq_iff_eq, unresolvedAddress] at zero
    omega
  rw [Listing.plainAddress, Listing.labelFor?, none]
  rfl

theorem resolve_of_mem
    (legible : labels.IsLegible) {name : String} {address : Int}
    (member : (name, address) ∈ labels.items) :
    labels.resolve name = address := by
  have isPlain := legible.isPlain name (List.mem_map_of_mem member)
  rw [resolve, find?, Label.normalize_of_unmarked isPlain.no_marker isPlain.no_colon,
    Roster.get?_of_mem member]
  rfl

/-- No number is taken for a label. -/
theorem resolve_toString (legible : labels.IsLegible) (value : Int) :
    labels.resolve (toString value) = unresolvedAddress := by
  have normal : Label.normalize (toString value) = toString value :=
    Label.normalize_of_unmarked
      (head?_toString_ne value (by decide) (by decide))
      (getLast?_toString_ne value (by decide) (by decide))
  rw [resolve, find?, normal]
  cases found : labels.bindings.get? (toString value) with
  | none => rfl
  | some address =>
      have named := List.mem_map_of_mem (f := Prod.fst) (Roster.mem_of_get? found)
      exact ((legible.isPlain _ named).not_number value rfl).elim

theorem resolve_eq_or_exists (query : String) :
    labels.resolve query = unresolvedAddress ∨
      ∃ name, (name, labels.resolve query) ∈ labels.items := by
  rw [resolve]
  cases found : labels.find? query with
  | none => exact .inl rfl
  | some address => exact .inr ⟨_, Roster.mem_of_get? found⟩

end LabelTable

namespace Program

variable {labels : LabelTable}

/-! ## Operands -/

/-- An operand as a program emits it: literals are words, and addresses have a label. -/
def IsEmitted (labels : LabelTable) : OperandKind × Int → Prop
  | (.literal, value) => Word.Fits value
  | (.memory, value) => ∃ name, (name, value) ∈ labels.items
  | (.reference, value) =>
      value = unresolvedAddress ∨ ∃ name, (name, value) ∈ labels.items

theorem IsEmitted.fits
    (legible : labels.IsLegible) {operand : OperandKind × Int}
    (emitted : IsEmitted labels operand) :
    Word.Fits operand.2 := by
  rcases operand with ⟨kind, value⟩
  cases kind with
  | literal => exact emitted
  | memory =>
      rcases emitted with ⟨name, member⟩
      exact (legible.bounds _ member).2
  | reference =>
      rcases emitted with zero | ⟨name, member⟩
      · cases zero
        decide
      · exact (legible.bounds _ member).2

theorem fits_resolve (legible : labels.IsLegible) (query : String) :
    Word.Fits (labels.resolve query) := by
  rcases labels.resolve_eq_or_exists query with zero | ⟨name, member⟩
  · rw [zero]
    decide
  · exact (legible.bounds _ member).2

/-- What a token of the source is emitted as. -/
theorem isEmitted_emittedOperand (legible : labels.IsLegible) (token : String) :
    IsEmitted labels (emittedOperand labels token) := by
  simp only [emittedOperand, operandKind]
  cases shape : Token.shape token with
  | reference name =>
      have number : (Part.operand token).number labels = labels.resolve name := by
        simp only [Part.number, Part.value, Valuation.ofOperand, shape]
        rfl
      rw [number, Word.wrap_of_fits (fits_resolve legible name)]
      exact labels.resolve_eq_or_exists name
  | address name => exact Word.wrap_fits _
  | plain =>
      by_cases unresolved : labels.resolve token = unresolvedAddress
      · simp only [if_pos unresolved]
        exact Word.wrap_fits _
      · have number : (Part.operand token).number labels = labels.resolve token := by
          simp only [Part.number, Part.value, Valuation.ofOperand, shape, if_neg unresolved]
          rfl
        simp only [if_neg unresolved]
        rw [number, Word.wrap_of_fits (fits_resolve legible token)]
        exact (labels.resolve_eq_or_exists token).resolve_left unresolved

/-- The text of an operand is read as the operand. -/
theorem reads_plainOperand
    (legible : labels.IsLegible) {operand : OperandKind × Int}
    (emitted : IsEmitted labels operand) :
    operandKind labels (Listing.plainOperand labels operand) = operand.1 ∧
      (Part.operand (Listing.plainOperand labels operand)).value labels = .ok operand.2 := by
  rcases operand with ⟨kind, value⟩
  cases kind with
  | literal =>
      have shape : Token.shape (toString value) = .plain :=
        Token.shape_of_unmarked
          (head?_toString_ne value (by decide) (by decide))
          (head?_toString_ne value (by decide) (by decide))
      have unresolved := LabelTable.resolve_toString legible value
      simp only [Listing.plainOperand, operandKind, Part.value, Valuation.ofOperand, shape,
        unresolved, if_true, Valuation.ofNumber, Numeral.read_toString_of_fits emitted]
      exact ⟨trivial, rfl⟩
  | memory =>
      rcases emitted with ⟨name, member⟩
      rcases LabelTable.exists_plainAddress_eq legible member with ⟨shown, inTable, text⟩
      have isPlain := legible.isPlain shown (List.mem_map_of_mem inTable)
      have shape := Token.shape_of_unmarked isPlain.no_star isPlain.no_ampersand
      have resolved := LabelTable.resolve_of_mem legible inTable
      have bound : value ≠ unresolvedAddress := by
        have positive := (legible.bounds _ inTable).1
        rw [unresolvedAddress]
        omega
      simp only [Listing.plainOperand, text, operandKind, Part.value, Valuation.ofOperand, shape,
        resolved, bound, if_false]
      exact ⟨trivial, rfl⟩
  | reference =>
      simp only [Listing.plainOperand, operandKind, Part.value, Valuation.ofOperand,
        Token.shape_star, Valuation.ofLabel]
      refine ⟨trivial, congrArg Except.ok ?_⟩
      -- A label that was not found is shown as zero, which is no label either.
      rcases emitted with rfl | ⟨name, member⟩
      · rw [LabelTable.plainAddress_zero legible]
        exact LabelTable.resolve_toString legible unresolvedAddress
      · rcases LabelTable.exists_plainAddress_eq legible member with ⟨shown, inTable, text⟩
        rw [text]
        exact LabelTable.resolve_of_mem legible inTable

theorem emittedOperand_plainOperand
    (legible : labels.IsLegible) {operand : OperandKind × Int}
    (emitted : IsEmitted labels operand) :
    emittedOperand labels (Listing.plainOperand labels operand) = operand := by
  rcases reads_plainOperand legible emitted with ⟨kind, value⟩
  rw [emittedOperand, Part.number, kind, value]
  simp only
  rw [Word.wrap_of_fits (emitted.fits legible)]

theorem isWord_plainAddress
    (legible : labels.IsLegible) {value : Int}
    (emitted : IsEmitted labels (.reference, value)) :
    Text.IsWord (Listing.plainAddress labels value) := by
  rcases emitted with rfl | ⟨name, member⟩
  · rw [LabelTable.plainAddress_zero legible]
    exact Text.isWord_toString _
  · rcases LabelTable.exists_plainAddress_eq legible member with ⟨shown, inTable, text⟩
    have named : shown ∈ labels.names := List.mem_map_of_mem inTable
    rw [text]
    exact ⟨(legible.isPlain shown named).ne_empty, legible.isUnbroken shown named⟩

theorem isWord_plainOperand
    (legible : labels.IsLegible) {operand : OperandKind × Int}
    (emitted : IsEmitted labels operand) :
    Text.IsWord (Listing.plainOperand labels operand) := by
  rcases operand with ⟨kind, value⟩
  cases kind with
  | literal => exact Text.isWord_toString value
  | memory => exact isWord_plainAddress legible (.inr emitted)
  | reference =>
      have word := isWord_plainAddress legible emitted
      have characters :
          (Listing.plainOperand labels (.reference, value)).toList =
            '*' :: (Listing.plainAddress labels value).toList := by
        rw [Listing.plainOperand, String.toList_append]
        rfl
      constructor
      · intro empty
        rw [empty] at characters
        cases characters
      · rw [Text.IsUnbroken, characters, List.forall_mem_cons]
        exact ⟨by decide, word.isUnbroken⟩

end Program

end WordMachine
