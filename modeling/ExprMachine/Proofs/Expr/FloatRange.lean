/-
  ExprMachine.Proofs.Expr.FloatRange

  How large the floats are that number tokens denote. A decimal numeral with a point has no
  bound, and denotes the infinity where its value exceeds all floats. A numeral in another
  base has at most 64 bits before its point, and denotes a finite float or none.
-/
import ExprMachine.Proofs.Expr.Floats
import ExprMachine.Proofs.Expr.Integers
import ExprMachine.Proofs.Expr.Parsed

namespace ExprMachine

namespace Expr

open Binary64 (isFinite)

-- ============================================================================
-- Tokens with a point
-- ============================================================================

/-- A number token denotes a float just when it has a point and its digits are read as the
    float. -/
theorem ofNumber_eq_float_iff {lexeme : String} {base : Nat} {digits : List Char} {bits : UInt64}
    (hsplit : splitBase (withoutSeparators lexeme.toList) = (base, digits)) :
    ofNumber lexeme = .ok (.float bits) ↔ '.' ∈ digits ∧ ∃ value, value.toBits = bits ∧
      (if base = 10 then Decimal.readFloat? digits else Decimal.readFraction? base digits) =
        some value := by
  simp only [ofNumber, hsplit, List.contains_iff_mem]
  by_cases point : '.' ∈ digits
  · rw [if_pos point]
    split
    · rename_i other hother
      rw [hother]
      simp [point]
    · rename_i none
      rw [none]
      simp
  · rw [if_neg point]
    split
    · simp [point]
    · simp [point]

/-- The value of a decimal numeral exceeds all floats: it has a point, and is as far beyond
    the largest float as the half of a step, or farther. Separators have no meaning. -/
def Exceeds (lexeme : String) : Prop :=
  ∃ whole fraction, withoutSeparators lexeme.toList = whole ++ '.' :: fraction ∧
    (∀ c ∈ whole ++ fraction, c.isDigit = true) ∧
    Decimal.limit * 10 ^ fraction.length ≤ Nat.ofDigitChars 10 (whole ++ fraction) 0

/-- A decimal numeral with a point denotes a float, which is finite just when the value of the
    numeral is below the limit. -/
theorem ofNumber_decimal {lexeme : String} {whole fraction : List Char}
    (written : withoutSeparators lexeme.toList = whole ++ '.' :: fraction)
    (digits : ∀ c ∈ whole ++ fraction, c.isDigit = true) (nonempty : whole ++ fraction ≠ []) :
    ∃ value : Float, ofNumber lexeme = .ok (.float value.toBits) ∧ (isFinite value = true ↔
      Nat.ofDigitChars 10 (whole ++ fraction) 0 < Decimal.limit * 10 ^ fraction.length) := by
  have decimal := isDigit_or_point digits
  obtain ⟨hwhole, hfraction⟩ := List.forall_mem_append.1 digits
  obtain ⟨value, hread, finite⟩ := Decimal.isFinite_readMagnitude? hwhole hfraction nonempty
  have hsplit := splitBase_of_decimal decimal
  rw [← readFloat?_of_decimal decimal, ← written] at hread
  rw [← written] at hsplit
  refine ⟨value, (ofNumber_eq_float_iff hsplit).2 ⟨?_, value, rfl, hread⟩, finite⟩
  rw [written]
  exact List.mem_append_right _ List.mem_cons_self

/-- What exceeds all floats is read all the same, as a float that is not finite. -/
theorem ofNumber_of_exceeds {lexeme : String} (h : Exceeds lexeme) :
    ∃ value : Float, ofNumber lexeme = .ok (.float value.toBits) ∧ isFinite value = false := by
  obtain ⟨whole, fraction, written, digits, large⟩ := h
  have positive : 0 < Decimal.limit * 10 ^ fraction.length :=
    Nat.mul_pos Decimal.limit_pos (Nat.pow_pos (by decide))
  have nonempty : whole ++ fraction ≠ [] := by
    intro empty
    rw [empty, Nat.ofDigitChars_nil] at large
    omega
  obtain ⟨value, hvalue, finite⟩ := ofNumber_decimal written digits nonempty
  refine ⟨value, hvalue, Bool.eq_false_iff.2 fun some => ?_⟩
  have := finite.1 some
  omega

/-- Nothing that starts with a point exceeds all floats: its value is less than one. -/
theorem not_exceeds_of_isIndexes {value : String}
    (h : (Symbol.number value).isIndexes = true) : ¬ Exceeds value := by
  rintro ⟨whole, fraction, written, digits, large⟩
  obtain ⟨body, hbody⟩ : ∃ body, value.toList = '.' :: body := by
    have point : value.toList.head? = some '.' := by simpa [Symbol.isIndexes] using h
    cases hvalue : value.toList with
    | nil => simp [hvalue] at point
    | cons c body => exact ⟨body, by rw [hvalue] at point; cases point; rfl⟩
  have empty : whole = [] := by
    cases whole with
    | nil => rfl
    | cons c whole =>
      rw [hbody] at written
      obtain rfl : '.' = c := (List.cons.inj written).1
      exact absurd (digits '.' (by simp)) (by decide)
  rw [empty, List.nil_append] at digits large
  have small := (Text.bounds_of_readDigitsFrom? (Text.readDigitsFrom?_decimal digits 0)).2
  have := Nat.le_mul_of_pos_left (10 ^ fraction.length) Decimal.limit_pos
  omega

-- ============================================================================
-- Announced bases
-- ============================================================================

/-- After a letter that announces a base come its digits. -/
theorem splitBase_announced {mark : Char} {base : Nat}
    (announced : Lexeme.announcedBase? mark = some base) (body : List Char) :
    splitBase (withoutSeparators ('0' :: mark :: body)) = (base, withoutSeparators body) ∧
      (base = 16 ∨ base = 8 ∨ base = 2) := by
  have letter : mark ≠ '_' := by
    rintro rfl
    cases announced
  have separators : withoutSeparators ('0' :: mark :: body) =
      '0' :: mark :: withoutSeparators body := by
    simp [withoutSeparators, letter]
  rw [separators]
  unfold Lexeme.announcedBase? at announced
  split at announced
  · rename_i hexadecimal
    cases announced
    exact ⟨if_pos hexadecimal, .inl rfl⟩
  rename_i other
  split at announced
  · rename_i octal
    cases announced
    exact ⟨(if_neg other).trans (if_pos octal), .inr (.inl rfl)⟩
  rename_i another
  split at announced
  · rename_i binary
    cases announced
    exact ⟨(if_neg other).trans ((if_neg another).trans (if_pos binary)), .inr (.inr rfl)⟩
  · cases announced

/-- A float that a token of a source denotes is finite, unless the token is a decimal numeral
    that exceeds all floats. -/
theorem isFinite_iff_of_ofNumber {keywords : List String} {lexeme : String} {bits : UInt64}
    (lexed : (Symbol.number lexeme).Lexed keywords) (h : ofNumber lexeme = .ok (.float bits)) :
    isFinite (.ofBits bits) = true ↔ ¬ Exceeds lexeme := by
  refine ⟨fun finite exceeds => ?_, fun bounded => ?_⟩
  · obtain ⟨other, hother, infinite⟩ := ofNumber_of_exceeds exceeds
    rw [h] at hother
    cases hother
    rw [Binary64.ofBits_toBits, infinite] at finite
    cases finite
  obtain ⟨c, source, rest, opens, read⟩ := exists_number_of_lexed lexed
  rcases Lexeme.number_cases opens read with ⟨mark, body, base, written, announced⟩ | decimal
  · obtain ⟨hsplit, hbase⟩ := splitBase_announced announced body
    rw [← written] at hsplit
    obtain ⟨-, value, rfl, hread⟩ := (ofNumber_eq_float_iff hsplit).1 h
    rw [if_neg (by omega)] at hread
    obtain ⟨_, units⟩ := Decimal.hasUnits_of_readFraction? hbase hread
    rw [Binary64.ofBits_toBits]
    exact units.isFinite
  · have digits : ∀ d ∈ withoutSeparators lexeme.toList, d.isDigit = true ∨ d = '.' := by
      intro d mem
      obtain ⟨mem, separator⟩ := List.mem_filter.1 mem
      exact (decimal d mem).imp_left fun part =>
        (Lexeme.isDigitPart_ten.1 part).resolve_right (by simpa using separator)
    obtain ⟨point, value, -, hread⟩ := (ofNumber_eq_float_iff (splitBase_of_decimal digits)).1 h
    rw [if_pos rfl, readFloat?_of_decimal digits] at hread
    obtain ⟨whole, fraction, written, nonempty, hwhole, hfraction⟩ :=
      Decimal.exists_parts_of_readMagnitude? digits point hread
    have parts := List.forall_mem_append.2 ⟨hwhole, hfraction⟩
    obtain ⟨other, hother, finite⟩ := ofNumber_decimal written parts nonempty
    cases h.symm.trans hother
    rw [Binary64.ofBits_toBits]
    exact finite.2 (Nat.lt_of_not_le fun large => bounded ⟨whole, fraction, written, parts, large⟩)

/-- `IsRadixFloat base values literal`: the literal writes a number with a point in a base that
    a letter announces, by the digits with these values before the point and any others after
    it. -/
inductive IsRadixFloat (base : Nat) (values : List Nat) : List Char → Prop where
  | announced {more mark whole fraction} (announces : Announces mark base)
      (before : HasDigits base values whole) (nonempty : values ≠ [])
      (after : HasDigits base more fraction)
      (opens : fraction.head?.any (Text.isDigitOf base) = true) :
      IsRadixFloat base values ('0' :: mark :: (whole ++ '.' :: fraction))

variable {base : Nat} {values : List Nat} {literal : List Char}

/-- Where every digit can be added, all digits can. -/
theorem exists_foldlM {α : Type} {add : α → Char → Option α} {digits : List Char}
    (h : ∀ c ∈ digits, ∀ sum, ∃ next, add sum c = some next) (sum : α) :
    ∃ result, digits.foldlM add sum = some result := by
  induction digits generalizing sum with
  | nil => exact ⟨sum, rfl⟩
  | cons c digits ih =>
    obtain ⟨first, others⟩ := List.forall_mem_cons.1 h
    obtain ⟨next, hnext⟩ := first sum
    rw [List.foldlM_cons, hnext]
    exact ih others next

/-- Digits with a point among them make a float just when those before the point fit 64 bits,
    if there are any. -/
theorem readFraction?_point {whole fraction : List Char} {number : Nat}
    (hwhole : ∀ c ∈ whole, Text.isDigitOf base c = true)
    (hfraction : ∀ c ∈ fraction, Text.isDigitOf base c = true)
    (read : Text.readNumeral? base whole = some number) :
    (Decimal.readFraction? base (whole ++ '.' :: fraction)).isSome = decide (number < 2 ^ 64) := by
  have point : ∀ c ∈ whole, decide (c ≠ '.') = true := by
    rintro c mem
    refine decide_eq_true fun point => ?_
    have digit := hwhole c mem
    simp [point, Text.isDigitOf, Text.digitValue?] at digit
  have nonempty : whole.isEmpty = false := by
    cases whole with
    | nil => cases read
    | cons => rfl
  obtain ⟨htake, hdrop⟩ := @Lexeme.span_append _ whole ('.' :: fraction) point rfl
  simp only [Decimal.readFraction?, htake, hdrop, nonempty, readUnsigned?_of_readNumeral? read,
    Option.filter]
  by_cases fits : number < 2 ^ 64
  · have digit : ∀ c ∈ fraction, ∀ state : Float × Float, ∃ next,
        ((Text.digitValue? base c).map fun digit =>
          (state.1 + Float.ofNat digit * state.2, state.2 / Float.ofNat base)) = some next := by
      intro c mem state
      obtain ⟨digit, hdigit⟩ := Option.isSome_iff_exists.1 (hfraction c mem)
      exact ⟨_, by rw [hdigit]; rfl⟩
    obtain ⟨result, hresult⟩ := exists_foldlM digit (Float.ofNat number, 1 / Float.ofNat base)
    simp [fits, hresult]
  · simp [fits]

/-- A number in an announced base denotes a finite float if its digits before the point fit
    64 bits, and no literal if they do not. -/
theorem ofNumber_of_isRadixFloat (h : IsRadixFloat base values literal) :
    (positional base values < 2 ^ 64 → ∃ value, isFinite value = true ∧
      ofNumber (String.ofList literal) = .ok (.float value.toBits)) ∧
    (2 ^ 64 ≤ positional base values →
      ofNumber (String.ofList literal) = .error (.invalidFloat (String.ofList literal))) := by
  cases h with
  | @announced _ mark whole fraction announces before nonempty after opens =>
    have small := announces.base_le
    have separated : withoutSeparators (whole ++ '.' :: fraction) =
        withoutSeparators whole ++ '.' :: withoutSeparators fraction := by
      rw [withoutSeparators, List.filter_append, List.filter_cons_of_pos (by decide)]
      rfl
    obtain ⟨hsplit, hbase⟩ :=
      splitBase_announced announces.announcedBase? (whole ++ '.' :: fraction)
    rw [separated] at hsplit
    have point : '.' ∈ withoutSeparators whole ++ '.' :: withoutSeparators fraction :=
      List.mem_append_right _ List.mem_cons_self
    have read := readFraction?_point (before.isDigitOf small) (after.isDigitOf small)
      (before.readNumeral?_eq small nonempty)
    refine ⟨fun fits => ?_, fun large => ?_⟩
    · obtain ⟨value, hvalue⟩ := Option.isSome_iff_exists.1 (read.trans (decide_eq_true fits))
      obtain ⟨_, units⟩ := Decimal.hasUnits_of_readFraction? hbase hvalue
      refine ⟨value, units.isFinite, ?_⟩
      rw [ofNumber_eq_float_iff (by rw [String.toList_ofList, hsplit]), if_neg (by omega)]
      exact ⟨point, value, rfl, hvalue⟩
    · rw [decide_eq_false (Nat.not_lt.2 large), Option.isSome_eq_false_iff,
        Option.isNone_iff_eq_none] at read
      simp only [ofNumber, String.toList_ofList, hsplit, List.contains_iff_mem, point, if_true,
        if_neg (show base ≠ 10 by omega), read]

/-- A number in an announced base is one token wherever no part of a number follows it. -/
theorem lexes_of_isRadixFloat {keywords : List String} {rest : List Char}
    (h : IsRadixFloat base values literal) (ends : rest.head?.any Lexeme.isWordPart = false) :
    Lexes keywords (literal ++ rest) (.number (String.ofList literal)) rest := by
  cases h with
  | @announced _ _ _ fraction announces before nonempty after opens =>
    have small := announces.base_le
    have point : ('.' :: (fraction ++ rest)).head?.any (Lexeme.isDigitPart base) = false :=
      Lexeme.head_not_isDigitPart (by rw [List.head?_cons, Option.any_some]; decide)
    have parts := before.isDigitPart small
    have digit := before.exists_digit small nonempty
    have start := number_announced announces.announcedBase? parts digit point
    have run := start.trans
      (Lexeme.numberFrom_fraction parts opens (after.isDigitPart small) ends)
    rw [List.cons_append, List.cons_append, List.append_assoc, List.cons_append]
    exact .number (.inl rfl) run

end Expr

end ExprMachine
