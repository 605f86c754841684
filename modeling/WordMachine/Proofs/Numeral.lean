import Mathlib.Algebra.Group.Nat.Defs
import WordMachine.Numeral

/-!
# Leading numerals

`Numeral.Leads` says without an algorithm which characters of a token make up
its leading numeral: a sign or none, then all the digits that follow.  Reading a
token finds this numeral if there is one, refuses it if it has too many digits,
and is exact if nothing follows it.  The decimal text of an integer is a numeral
that is read as this integer.  A number is written unless it has too many digits,
which is a bound on its size.
-/

namespace WordMachine

namespace Numeral

/-- The characters are a sign, or there are none. -/
def IsSign (characters : List Char) : Prop :=
  characters = [] ∨ characters = ['+'] ∨ characters = ['-']

/-- A token starts with a sign or none, then with digits, and what follows is no digit. -/
structure Leads (token : String) (sign digits rest : List Char) : Prop where
  token_eq : token.toList = sign ++ (digits ++ rest)
  isSign : IsSign sign
  digits_ne_nil : digits ≠ []
  isDigit_of_mem : ∀ digit ∈ digits, Text.isDigit digit = true
  stops : ∀ next, rest.head? = some next → Text.isDigit next = false

/-- A token that consists of a sign or none and of digits. -/
def IsNumeral (token : String) : Prop :=
  ∃ sign digits, Leads token sign digits []

/-- The numeral that a token starts with, if any, does not have too many digits. -/
def IsShort (token : String) : Prop :=
  ∀ sign digits rest, Leads token sign digits rest → digits.length ≤ maxDigits

/-! ## Signs -/

theorem splitSign_of_isDigit
    {digit : Char} (isDigit : Text.isDigit digit = true) (rest : List Char) :
    splitSign (digit :: rest) = (false, digit :: rest) := by
  have notPlus : digit ≠ '+' := by
    rintro rfl
    revert isDigit
    decide
  have notMinus : digit ≠ '-' := by
    rintro rfl
    revert isDigit
    decide
  simp [splitSign, notPlus, notMinus]

/-- A sign is split off in front of digits. -/
theorem splitSign_append
    {sign digits : List Char} (isSign : IsSign sign) (nonempty : digits ≠ [])
    (isDigit_of_mem : ∀ digit ∈ digits, Text.isDigit digit = true) (rest : List Char) :
    splitSign (sign ++ (digits ++ rest)) = (decide (sign = ['-']), digits ++ rest) := by
  rcases isSign with rfl | rfl | rfl
  · cases digits with
    | nil => exact (nonempty rfl).elim
    | cons digit others => exact splitSign_of_isDigit (isDigit_of_mem digit (by simp)) _
  · rfl
  · rfl

theorem exists_sign_append (characters : List Char) :
    ∃ sign, IsSign sign ∧ characters = sign ++ (splitSign characters).2 := by
  fun_cases splitSign characters with
  | case1 rest => exact ⟨['+'], .inr (.inl rfl), rfl⟩
  | case2 rest => exact ⟨['-'], .inr (.inr rfl), rfl⟩
  | case3 => exact ⟨[], .inl rfl, rfl⟩

/-! ## Reading -/

theorem takeWhile_isDigit_append
    {digits rest : List Char} (isDigit_of_mem : ∀ digit ∈ digits, Text.isDigit digit = true)
    (stops : ∀ next, rest.head? = some next → Text.isDigit next = false) :
    (digits ++ rest).takeWhile Text.isDigit = digits ∧
      (digits ++ rest).dropWhile Text.isDigit = rest := by
  rw [List.takeWhile_append_of_pos isDigit_of_mem, List.dropWhile_append_of_pos isDigit_of_mem]
  cases rest with
  | nil => simp
  | cons next others => simp [stops next rfl]

/-- A leading numeral decides how a token is read. -/
theorem Leads.read_eq
    {token : String} {sign digits rest : List Char} (leads : Leads token sign digits rest) :
    read token =
      if digits.length ≤ maxDigits then
        .ok ⟨if sign = ['-'] then -(magnitude digits) else magnitude digits, rest.isEmpty⟩
      else
        .error ⟨digits.length⟩ := by
  have split := splitSign_append leads.isSign leads.digits_ne_nil leads.isDigit_of_mem rest
  rcases takeWhile_isDigit_append leads.isDigit_of_mem leads.stops with ⟨taken, dropped⟩
  have nonempty : ¬ digits.isEmpty = true := by simpa using leads.digits_ne_nil
  simp only [read, leads.token_eq, split, taken, dropped, if_neg nonempty, decide_eq_true_eq]

theorem leads_of_takeWhile_ne_nil
    {token : String}
    (nonempty : (splitSign token.toList).2.takeWhile Text.isDigit ≠ []) :
    ∃ sign, Leads token sign ((splitSign token.toList).2.takeWhile Text.isDigit)
      ((splitSign token.toList).2.dropWhile Text.isDigit) := by
  rcases exists_sign_append token.toList with ⟨sign, isSign, split⟩
  refine ⟨sign, ?_, isSign, nonempty, ?_, ?_⟩
  · rw [List.takeWhile_append_dropWhile]
    exact split
  · intro digit member
    exact List.all_eq_true.mp List.all_takeWhile digit member
  · intro next first
    have behind := List.head?_dropWhile_not Text.isDigit (splitSign token.toList).2
    rw [first] at behind
    exact behind

theorem read_of_no_leads
    {token : String} (absent : ∀ sign digits rest, ¬ Leads token sign digits rest) :
    read token = .ok ⟨0, false⟩ := by
  by_cases empty : (splitSign token.toList).2.takeWhile Text.isDigit = []
  · simp [read, empty]
  · rcases leads_of_takeWhile_ne_nil empty with ⟨sign, leads⟩
    exact (absent _ _ _ leads).elim

/-- A reading is exact if the token is a numeral. -/
theorem exact_iff_isNumeral
    {token : String} {reading : NumeralReading} (reads : read token = .ok reading) :
    reading.exact = true ↔ IsNumeral token := by
  constructor
  · intro exact
    by_cases led : ∃ sign digits rest, Leads token sign digits rest
    · rcases led with ⟨sign, digits, rest, leads⟩
      rw [leads.read_eq] at reads
      split at reads
      · cases reads
        rw [List.isEmpty_iff] at exact
        subst exact
        exact ⟨sign, digits, leads⟩
      · cases reads
    · rw [read_of_no_leads (by simpa using led)] at reads
      cases reads
      cases exact
  · rintro ⟨sign, digits, leads⟩
    rw [leads.read_eq] at reads
    split at reads
    · cases reads
      rfl
    · cases reads

theorem exists_read_of_isShort {token : String} (short : IsShort token) :
    ∃ reading, read token = .ok reading := by
  by_cases led : ∃ sign digits rest, Leads token sign digits rest
  · rcases led with ⟨sign, digits, rest, leads⟩
    rw [leads.read_eq, if_pos (short sign digits rest leads)]
    exact ⟨_, rfl⟩
  · exact ⟨_, read_of_no_leads (by simpa using led)⟩

/-- A token is refused exactly if its leading numeral has too many digits. -/
theorem read_eq_error_iff {token : String} {fault : LongNumeral} :
    read token = .error fault ↔
      ∃ sign digits rest,
        Leads token sign digits rest ∧ maxDigits < digits.length ∧ fault = ⟨digits.length⟩ := by
  constructor
  · intro refused
    by_cases led : ∃ sign digits rest, Leads token sign digits rest
    · rcases led with ⟨sign, digits, rest, leads⟩
      rw [leads.read_eq] at refused
      split at refused
      case isTrue => cases refused
      case isFalse many =>
        cases refused
        exact ⟨sign, digits, rest, leads, Nat.not_le.mp many, rfl⟩
    · rw [read_of_no_leads (by simpa using led)] at refused
      cases refused
  · rintro ⟨sign, digits, rest, leads, many, rfl⟩
    rw [leads.read_eq, if_neg (Nat.not_le.mpr many)]

theorem isShort_of_length_le {token : String} (few : token.toList.length ≤ maxDigits) :
    IsShort token := by
  intro sign digits rest leads
  rw [leads.token_eq, List.length_append, List.length_append] at few
  omega

/-! ## Testing for numerals -/

theorem isNumeral_iff (token : String) :
    (!(splitSign token.toList).2.isEmpty && (splitSign token.toList).2.all Text.isDigit) = true ↔
      IsNumeral token := by
  rw [Bool.and_eq_true, Bool.not_eq_true', List.isEmpty_eq_false_iff, List.all_eq_true]
  constructor
  · rintro ⟨nonempty, isDigit_of_mem⟩
    rcases exists_sign_append token.toList with ⟨sign, isSign, split⟩
    refine ⟨sign, (splitSign token.toList).2, ?_, isSign, nonempty, isDigit_of_mem,
      by simp⟩
    rw [List.append_nil]
    exact split
  · rintro ⟨sign, digits, leads⟩
    have split := splitSign_append leads.isSign leads.digits_ne_nil leads.isDigit_of_mem []
    rw [leads.token_eq, split, List.append_nil]
    exact ⟨leads.digits_ne_nil, leads.isDigit_of_mem⟩

instance (token : String) : Decidable (IsNumeral token) :=
  decidable_of_iff _ (isNumeral_iff token)

/-! ## Numbers that can be written -/

/-- A number that does not have too many digits to be written. -/
def IsWritable (value : Int) : Prop :=
  digitCount value ≤ maxDigits

instance (value : Int) : Decidable (IsWritable value) :=
  inferInstanceAs (Decidable (_ ≤ _))

theorem isWritable_iff (value : Int) :
    IsWritable value ↔ value.natAbs < 10 ^ maxDigits :=
  Nat.length_toDigits_le_iff (by decide) (by decide)

theorem IsWritable.of_natAbs_le
    {small large : Int} (writable : IsWritable large) (bound : small.natAbs ≤ large.natAbs) :
    IsWritable small := by
  rw [isWritable_iff] at writable ⊢
  exact Nat.lt_of_le_of_lt bound writable

/-- Every number that fits into a machine word of 64 bits can be written. -/
theorem isWritable_of_natAbs_lt {value : Int} (small : value.natAbs < 2 ^ 64) :
    IsWritable value := by
  have wide : (10 : Nat) ^ 20 ≤ 10 ^ maxDigits := Nat.pow_le_pow_right (by decide) (by decide)
  rw [isWritable_iff]
  exact Nat.lt_of_lt_of_le (Nat.lt_of_lt_of_le small (by decide)) wide

theorem check_eq_ok_iff {value : Int} : check value = .ok () ↔ IsWritable value := by
  rw [check, IsWritable]
  split <;> simp_all

theorem checkAll_eq_ok_iff {values : List Int} :
    checkAll values = .ok () ↔ ∀ value ∈ values, IsWritable value := by
  induction values with
  | nil => simp [checkAll]
  | cons value rest tailHolds =>
      rw [List.forall_mem_cons, ← check_eq_ok_iff, ← tailHolds]
      rw [checkAll]
      cases check value with
      | error fault => simp [bind, Except.bind]
      | ok _ => simp [bind, Except.bind]

theorem write_of_isWritable {value : Int} (writable : IsWritable value) :
    write value = .ok (toString value) := by
  rw [write, check_eq_ok_iff.mpr writable]
  rfl

theorem write_of_not_isWritable {value : Int} (long : ¬ IsWritable value) :
    write value = .error ⟨digitCount value⟩ := by
  rw [IsWritable] at long
  rw [write, check, if_neg long]
  rfl

/-! ## Decimal texts -/

theorem foldl_digitValue?_of_isDigit
    {digits : List Char} (ascii : ∀ digit ∈ digits, digit.isDigit = true) (value : Nat) :
    digits.foldl (fun value digit => 10 * value + (Text.digitValue? digit).getD 0) value =
      Nat.ofDigitChars 10 digits value := by
  induction digits generalizing value with
  | nil => rfl
  | cons digit rest tailHolds =>
      rw [List.forall_mem_cons] at ascii
      rw [List.foldl_cons, Text.digitValue?_of_isDigit ascii.1]
      exact tailHolds ascii.2 _

theorem toList_toString (value : Int) :
    (toString value).toList =
      (if value < 0 then ['-'] else []) ++ Nat.toDigits 10 value.natAbs := by
  rw [Int.toString_eq_repr, Int.repr_eq_if]
  by_cases negative : value < 0
  · have size : (-value).toNat = value.natAbs := by omega
    rw [if_neg (by omega), if_pos negative, String.toList_append, Nat.toList_repr, size]
    rfl
  · have size : value.toNat = value.natAbs := by omega
    rw [if_pos (by omega), if_neg negative, Nat.toList_repr, size, List.nil_append]

theorem isDigit_of_mem_toDigits
    {number : Nat} {digit : Char} (member : digit ∈ Nat.toDigits 10 number) :
    digit.isDigit = true :=
  Nat.isDigit_of_mem_toDigits (by decide) (by decide) member

/-- The text of an integer is a numeral: its sign if it is negative, and its digits. -/
theorem leads_toString (value : Int) :
    Leads (toString value) (if value < 0 then ['-'] else [])
      (Nat.toDigits 10 value.natAbs) [] where
  token_eq := by rw [toList_toString, List.append_nil]
  isSign := by
    split
    · exact .inr (.inr rfl)
    · exact .inl rfl
  digits_ne_nil := Nat.toDigits_ne_nil
  isDigit_of_mem := by
    intro digit member
    rw [Text.isDigit, Text.digitValue?_of_isDigit (isDigit_of_mem_toDigits member)]
    rfl
  stops := by simp

theorem isNumeral_toString (value : Int) : IsNumeral (toString value) :=
  ⟨_, _, leads_toString value⟩

/-- Unless it is too long, the text of an integer is read as that integer. -/
theorem read_toString
    {value : Int} (few : (Nat.toDigits 10 value.natAbs).length ≤ maxDigits) :
    read (toString value) = .ok ⟨value, true⟩ := by
  have size : magnitude (Nat.toDigits 10 value.natAbs) = value.natAbs := by
    rw [magnitude, foldl_digitValue?_of_isDigit fun _ => isDigit_of_mem_toDigits,
      Nat.ofDigitChars_ten_toDigits]
  rw [(leads_toString value).read_eq, if_pos few, size]
  by_cases negative : value < 0
  · have number : -(value.natAbs : Int) = value := by omega
    rw [if_pos negative, if_pos rfl, number]
    rfl
  · have number : (value.natAbs : Int) = value := by omega
    rw [if_neg negative, if_neg (by simp), number]
    rfl

theorem eq_minus_or_isDigit_of_mem_toString
    {value : Int} {character : Char} (member : character ∈ (toString value).toList) :
    character = '-' ∨ character.isDigit = true := by
  rw [toList_toString, List.mem_append] at member
  rcases member with sign | digit
  · split at sign
    · exact .inl (List.mem_singleton.mp sign)
    · cases sign
  · exact .inr (isDigit_of_mem_toDigits digit)

end Numeral

end WordMachine
