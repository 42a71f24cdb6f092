/-
  ExprMachine.Proofs.Text.Numerals

  Reading back the digits that a number is written with.
-/
import ExprMachine.Binary64.Exact
import ExprMachine.Text.Numerals

namespace ExprMachine.Text

variable {base : Nat}

-- ============================================================================
-- Digits
-- ============================================================================

theorem digitValue?_digitChar {digit : Nat} (small : base ≤ 16) (h : digit < base) :
    digitValue? base digit.digitChar = some digit := by
  have value : ∀ digit < 16, ∀ base ≤ 16, digit < base →
      digitValue? base digit.digitChar = some digit := by decide
  exact value digit (by omega) base small h

theorem digitValue?_zero (positive : 0 < base) : digitValue? base '0' = some 0 := by
  simp [digitValue?, positive]

theorem digitValue?_of_isDigit {c : Char} (h : c.isDigit = true) :
    digitValue? 10 c = some (c.toNat - '0'.toNat) := by
  have range : '0' ≤ c ∧ c ≤ '9' := by
    simp only [Char.isDigit, Bool.and_eq_true, decide_eq_true_eq] at h
    exact h
  have below : c.toNat ≤ '9'.toNat := range.2
  have small : c.toNat - '0'.toNat < 10 := by
    have : '9'.toNat = 57 := rfl
    have : '0'.toNat = 48 := rfl
    omega
  rw [digitValue?, if_pos range, if_pos small]

theorem digitValue?_lt {c : Char} {digit : Nat} (h : digitValue? base c = some digit) :
    digit < base := by
  rw [digitValue?, Option.ite_none_right_eq_some] at h
  exact Option.some.inj h.2 ▸ h.1

/-- Only the zero has the value zero. -/
theorem eq_zero_of_digitValue? {c : Char} (h : digitValue? base c = some 0) : c = '0' := by
  rw [digitValue?, Option.ite_none_right_eq_some] at h
  obtain ⟨positive, value⟩ := h
  have value := Option.some.inj value
  split at value
  · rename_i bounds
    have least : '0'.toNat ≤ c.toNat := bounds.1
    exact Char.toNat_inj.1 (by omega)
  · split at value
    · omega
    split at value <;> omega

-- ============================================================================
-- Numerals
-- ============================================================================

theorem readDigitsFrom?_cons {start number : Nat} {c : Char} {digits : List Char}
    (h : readDigitsFrom? base start (c :: digits) = some number) :
    ∃ digit, digitValue? base c = some digit ∧
      readDigitsFrom? base (start * base + digit) digits = some number := by
  rw [readDigitsFrom?, List.foldlM_cons] at h
  obtain ⟨next, hnext, h⟩ := Option.bind_eq_some_iff.1 h
  obtain ⟨digit, hdigit, rfl⟩ := Option.map_eq_some_iff.1 hnext
  exact ⟨digit, hdigit, h⟩

theorem readDigitsFrom?_append (start : Nat) (digits more : List Char) :
    readDigitsFrom? base start (digits ++ more) =
      (readDigitsFrom? base start digits).bind fun number => readDigitsFrom? base number more := by
  simp [readDigitsFrom?, List.foldlM_append]

/-- What is read as digits consists of digits. -/
theorem isDigitOf_of_readDigitsFrom? {digits : List Char} : ∀ {start number : Nat},
    readDigitsFrom? base start digits = some number → ∀ c ∈ digits, isDigitOf base c = true := by
  induction digits with
  | nil => exact fun _ _ mem => nomatch mem
  | cons c digits ih =>
    intro start number h
    obtain ⟨digit, hdigit, h⟩ := readDigitsFrom?_cons h
    exact List.forall_mem_cons.2 ⟨by rw [isDigitOf, hdigit, Option.isSome_some], ih h⟩

/-- A numeral consists of digits. -/
theorem isDigitOf_of_readNumeral? {digits : List Char} {number : Nat}
    (h : readNumeral? base digits = some number) : ∀ c ∈ digits, isDigitOf base c = true := by
  rw [readNumeral?] at h
  split at h
  · cases h
  · exact isDigitOf_of_readDigitsFrom? h

/-- Decimal digits are read as the number that they make by position. -/
theorem readDigitsFrom?_decimal {digits : List Char} (h : ∀ d ∈ digits, d.isDigit = true)
    (start : Nat) : readDigitsFrom? 10 start digits = some (Nat.ofDigitChars 10 digits start) := by
  induction digits generalizing start with
  | nil => rfl
  | cons c digits ih =>
    obtain ⟨hc, hdigits⟩ := List.forall_mem_cons.1 h
    rw [readDigitsFrom?, List.foldlM_cons, digitValue?_of_isDigit hc, Nat.ofDigitChars_cons,
      Nat.mul_comm]
    exact ih hdigits _

/-- The digits of a number add it to what was read before them. -/
theorem readDigitsFrom?_toDigits (large : 1 < base) (small : base ≤ 16) (start number : Nat) :
    readDigitsFrom? base start (Nat.toDigits base number) =
      some (start * base ^ (Nat.toDigits base number).length + number) := by
  induction number using Nat.strongRecOn with
  | _ number ih =>
    by_cases h : number < base
    · rw [Nat.toDigits_of_lt_base h]
      simp [readDigitsFrom?, digitValue?_digitChar small h]
    · have hdiv : number / base < number := Nat.div_lt_self (by omega) large
      have hmod : number % base < base := Nat.mod_lt _ (by omega)
      rw [Nat.toDigits_of_base_le large (by omega), readDigitsFrom?_append, ih _ hdiv,
        Option.bind_some]
      simp only [readDigitsFrom?, List.foldlM_cons, List.foldlM_nil,
        digitValue?_digitChar small hmod, Option.map_some, List.length_append,
        List.length_singleton]
      have := Nat.div_add_mod number base
      simp only [Option.bind_eq_bind, Option.bind_some, Option.pure_def, Option.some.injEq,
        Nat.pow_succ, Nat.add_mul, Nat.mul_assoc]
      rw [Nat.add_assoc, Nat.mul_comm (number / base), this]

theorem readNumeral?_toDigits (large : 1 < base) (small : base ≤ 16) (number : Nat) :
    readNumeral? base (Nat.toDigits base number) = some number := by
  have nonempty : (Nat.toDigits base number).isEmpty = false := by
    simp [Nat.toDigits_ne_nil]
  simp [readNumeral?, nonempty, readDigitsFrom?_toDigits large small]

theorem readDigitsFrom?_replicate_zero (large : 1 < base) (start count : Nat) :
    readDigitsFrom? base start (List.replicate count '0') = some (start * base ^ count) := by
  have zero : digitValue? base '0' = some 0 := digitValue?_zero (by omega)
  induction count generalizing start with
  | zero => simp [readDigitsFrom?]
  | succ count ih =>
    rw [List.replicate_succ, readDigitsFrom?, List.foldlM_cons, zero]
    exact (ih (start * base)).trans (by rw [Nat.pow_succ', Nat.mul_assoc])

theorem bounds_of_readDigitsFrom? {digits : List Char} : ∀ {start number : Nat},
    readDigitsFrom? base start digits = some number →
      start * base ^ digits.length ≤ number ∧ number < (start + 1) * base ^ digits.length := by
  induction digits with
  | nil =>
    intro start number h
    cases h
    simp
  | cons c digits ih =>
    intro start number h
    obtain ⟨digit, hdigit, h⟩ := readDigitsFrom?_cons h
    have small := digitValue?_lt hdigit
    obtain ⟨least, most⟩ := ih h
    rw [List.length_cons, Nat.pow_succ', ← Nat.mul_assoc, ← Nat.mul_assoc]
    constructor
    · exact Nat.le_trans (Nat.mul_le_mul_right _ (by omega)) least
    · refine Nat.lt_of_lt_of_le most (Nat.mul_le_mul_right _ ?_)
      rw [Nat.succ_mul]
      omega

/-- The places of a number are the digits of its numeral without the leading zeros. -/
theorem places_of_readDigitsFrom? {digits : List Char} {number : Nat}
    (h : readDigitsFrom? base 0 digits = some number) (positive : 0 < number) :
    base ^ ((digits.dropWhile (· = '0')).length - 1) ≤ number ∧
      number < base ^ (digits.dropWhile (· = '0')).length := by
  induction digits with
  | nil =>
    cases h
    cases positive
  | cons c digits ih =>
    obtain ⟨digit, hdigit, h⟩ := readDigitsFrom?_cons h
    rw [Nat.zero_mul, Nat.zero_add] at h
    by_cases zero : c = '0'
    · subst zero
      rw [digitValue?_zero (Nat.zero_lt_of_lt (digitValue?_lt hdigit))] at hdigit
      cases hdigit
      rw [List.dropWhile_cons_of_pos (by simp)]
      exact ih h
    · rw [List.dropWhile_cons_of_neg (by simpa using zero), List.length_cons,
        Nat.add_sub_cancel]
      have nonzero : digit ≠ 0 := by
        rintro rfl
        exact zero (eq_zero_of_digitValue? hdigit)
      have small := digitValue?_lt hdigit
      obtain ⟨least, most⟩ := bounds_of_readDigitsFrom? h
      constructor
      · exact Nat.le_trans (Nat.le_mul_of_pos_left _ (by omega)) least
      · rw [Nat.pow_succ']
        exact Nat.lt_of_lt_of_le most (Nat.mul_le_mul_right _ small)

end ExprMachine.Text
