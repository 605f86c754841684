import Mathlib.Data.List.Pairwise
import Mathlib.Data.Nat.Digits.Defs
import WordMachine.Proofs.Numeral

/-!
# The value of a numeral

Digits may come from any script, and one numeral may mix them.  The runs of the
digit table do not overlap, so that each digit has one value, its place in the run
it belongs to.  The value of a numeral is the sum of these values, each weighed by
its power of ten.

A token has at most one leading numeral, so `ReadsLeading` describes the reading of
a token completely: what is read if there is a leading numeral, when it is refused,
and what a token without one is taken for.
-/

namespace WordMachine

namespace Text

/-! ## Digits -/

/-- A character is a digit of the given value: it has that place in a run of the digit table. -/
def HasDigitValue (character : Char) (value : Nat) : Prop :=
  ∃ start ∈ digitZeros, value < 10 ∧ character.toNat = start + value

theorem pairwise_digitZeros :
    digitZeros.Pairwise (fun left right => left + 10 ≤ right ∨ right + 10 ≤ left) := by
  decide +kernel

/-- The runs do not overlap, so a digit belongs to one of them. -/
theorem HasDigitValue.unique
    {character : Char} {left right : Nat}
    (leftValue : HasDigitValue character left) (rightValue : HasDigitValue character right) :
    left = right := by
  rcases leftValue with ⟨start, inTable, small, place⟩
  rcases rightValue with ⟨other, otherInTable, otherSmall, otherPlace⟩
  by_cases same : start = other
  · omega
  · have symmetric :
        Std.Symm (fun left right : Nat => left + 10 ≤ right ∨ right + 10 ≤ left) :=
      ⟨fun _ _ => Or.symm⟩
    have apart := pairwise_digitZeros.forall inTable otherInTable same
    omega

/-- The digit table gives a digit the value of its place, and other characters none. -/
theorem digitValue?_eq_some_iff {character : Char} {value : Nat} :
    digitValue? character = some value ↔ HasDigitValue character value := by
  have sound {found : Nat} (digit : digitValue? character = some found) :
      HasDigitValue character found := by
    rcases List.exists_of_findSome?_eq_some digit with ⟨start, inTable, inRun⟩
    simp only [Option.ite_none_right_eq_some, Option.some.injEq] at inRun
    exact ⟨start, inTable, by omega, by omega⟩
  refine ⟨sound, fun valued => ?_⟩
  cases digit : digitValue? character with
  | some found => rw [valued.unique (sound digit)]
  | none =>
      rcases valued with ⟨start, inTable, small, place⟩
      have missed := List.findSome?_eq_none_iff.mp digit start inTable
      simp [place, small] at missed

end Text

namespace Numeral

/-! ## Positional value -/

theorem exists_values
    {digits : List Char} (isDigit_of_mem : ∀ digit ∈ digits, Text.isDigit digit = true) :
    ∃ values, List.Forall₂ Text.HasDigitValue digits values := by
  induction digits with
  | nil => exact ⟨[], .nil⟩
  | cons digit rest tailHolds =>
      rw [List.forall_mem_cons] at isDigit_of_mem
      rcases Option.isSome_iff_exists.mp isDigit_of_mem.1 with ⟨value, found⟩
      rcases tailHolds isDigit_of_mem.2 with ⟨values, valued⟩
      exact ⟨value :: values, .cons (Text.digitValue?_eq_some_iff.mp found) valued⟩

/-- Reading on from a value moves it up by one place for each digit. -/
theorem foldl_digitValue?_eq
    {digits : List Char} {values : List Nat}
    (valued : List.Forall₂ Text.HasDigitValue digits values) (initial : Nat) :
    digits.foldl (fun value digit => 10 * value + (Text.digitValue? digit).getD 0) initial =
      initial * 10 ^ values.length + Nat.ofDigits 10 values.reverse := by
  induction valued generalizing initial with
  | nil => simp
  | @cons digit value others otherValues first _ tailHolds =>
      rw [List.foldl_cons, tailHolds, Text.digitValue?_eq_some_iff.mpr first,
        Nat.ofDigits_reverse_cons, List.length_cons, Option.getD_some]
      ring

theorem magnitude_eq_ofDigits
    {digits : List Char} {values : List Nat}
    (valued : List.Forall₂ Text.HasDigitValue digits values) :
    magnitude digits = Nat.ofDigits 10 values.reverse := by
  rw [magnitude, foldl_digitValue?_eq valued, Nat.zero_mul, Nat.zero_add]

/-! ## Leading numerals -/

/-- A token can be divided into sign, digits and rest in one way only. -/
theorem Leads.unique
    {token : String} {sign digits rest otherSign otherDigits otherRest : List Char}
    (leads : Leads token sign digits rest)
    (otherLeads : Leads token otherSign otherDigits otherRest) :
    sign = otherSign ∧ digits = otherDigits ∧ rest = otherRest := by
  have split := splitSign_append leads.isSign leads.digits_ne_nil leads.isDigit_of_mem rest
  have otherSplit :=
    splitSign_append otherLeads.isSign otherLeads.digits_ne_nil otherLeads.isDigit_of_mem otherRest
  rw [← leads.token_eq] at split
  rw [← otherLeads.token_eq, split] at otherSplit
  have body : digits ++ rest = otherDigits ++ otherRest := congrArg Prod.snd otherSplit
  rcases takeWhile_isDigit_append leads.isDigit_of_mem leads.stops with ⟨taken, dropped⟩
  rcases takeWhile_isDigit_append otherLeads.isDigit_of_mem otherLeads.stops with
    ⟨otherTaken, otherDropped⟩
  rw [body, otherTaken] at taken
  rw [body, otherDropped] at dropped
  have whole := leads.token_eq.symm.trans otherLeads.token_eq
  rw [body] at whole
  exact ⟨List.append_cancel_right whole, taken.symm, dropped.symm⟩

/-- The integer with the given sign and size. -/
def signed (sign : List Char) (size : Nat) : Int :=
  if sign = ['-'] then -size else size

/-- A token is read by its leading numeral. -/
structure ReadsLeading (token : String) : Prop where
  /-- The digits have values, and these are read as a positional number to the base ten. -/
  read_short : ∀ sign digits rest, Leads token sign digits rest → digits.length ≤ 4300 →
    ∃ values, List.Forall₂ Text.HasDigitValue digits values ∧
      read token = .ok ⟨signed sign (Nat.ofDigits 10 values.reverse), rest.isEmpty⟩
  read_long : ∀ sign digits rest, Leads token sign digits rest → 4300 < digits.length →
    read token = .error ⟨digits.length⟩
  read_none : (¬ ∃ sign digits rest, Leads token sign digits rest) → read token = .ok ⟨0, false⟩
  unique : ∀ sign digits rest otherSign otherDigits otherRest,
    Leads token sign digits rest → Leads token otherSign otherDigits otherRest →
      sign = otherSign ∧ digits = otherDigits ∧ rest = otherRest

theorem readsLeading (token : String) : ReadsLeading token where
  read_short := by
    intro sign digits rest leads short
    rcases exists_values leads.isDigit_of_mem with ⟨values, valued⟩
    refine ⟨values, valued, ?_⟩
    rw [leads.read_eq, maxDigits, if_pos short, magnitude_eq_ofDigits valued]
    rfl
  read_long := by
    intro sign digits rest leads long
    rw [leads.read_eq, maxDigits, if_neg (Nat.not_le.mpr long)]
  read_none := by
    intro absent
    apply read_of_no_leads
    intro sign digits rest leads
    exact absent ⟨sign, digits, rest, leads⟩
  unique := by
    intro sign digits rest otherSign otherDigits otherRest leads otherLeads
    exact leads.unique otherLeads

/-! ## Decimal texts -/

theorem countP_isDigit_toString (value : Int) :
    (toString value).toList.countP Text.isDigit = (Nat.toDigits 10 value.natAbs).length := by
  have leads := leads_toString value
  have noSign : (if value < 0 then ['-'] else []).countP Text.isDigit = 0 := by
    split
    · decide
    · rfl
  rw [leads.token_eq, List.append_nil, List.countP_append, noSign, Nat.zero_add,
    List.countP_eq_length]
  exact leads.isDigit_of_mem

/--
Every token is read by its leading numeral, which it has at most once, and the
decimal text of an integer is read as this integer, unless it is too long.
-/
theorem readsLeading_and_readsTexts (token : String) :
    ReadsLeading token ∧
      ∀ value : Int, (toString value).toList.countP Text.isDigit ≤ 4300 →
        read (toString value) = .ok ⟨value, true⟩ := by
  refine ⟨readsLeading token, ?_⟩
  intro value short
  rw [countP_isDigit_toString] at short
  exact read_toString short

/-- Digits of two scripts in one numeral, and a sign without digits. -/
example : read "-१2x" = .ok ⟨-12, false⟩ ∧ read "+" = .ok ⟨0, false⟩ := by
  decide +kernel

end Numeral

end WordMachine
