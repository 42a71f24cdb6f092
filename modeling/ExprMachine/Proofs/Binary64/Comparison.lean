/-
  ExprMachine.Proofs.Binary64.Comparison

  The order of an integer and a float is the order of their exact values: the whole part
  of the float decides, and what stands after its point breaks a tie.
-/
import ExprMachine.Proofs.Binary64.Unpacked

namespace ExprMachine.Binary64

-- ============================================================================
-- Whole part and rest
-- ============================================================================

/-- A multiple of a unit and a number that lies less than a unit beside another multiple
    compare as the multiples do, unless these are the same. -/
theorem compare_mul_add {a whole rest unit : Int} (low : -unit < rest) (high : rest < unit) :
    compare (a * unit) (whole * unit + rest) = (compare a whole).then (compare 0 rest) := by
  rcases Int.lt_trichotomy a whole with below | same | above
  · have step : (a + 1) * unit ≤ whole * unit :=
      Int.mul_le_mul_of_nonneg_right below (by omega)
    rw [Int.add_mul, Int.one_mul] at step
    have less : a * unit < whole * unit + rest := by omega
    rw [Int.compare_eq_lt.2 below, Int.compare_eq_lt.2 less]
    rfl
  · subst same
    have shifted : compare (a * unit) (a * unit + rest) = compare 0 rest := by
      rw [Int.compare_eq_ite_lt, Int.compare_eq_ite_lt]
      have before : a * unit < a * unit + rest ↔ 0 < rest := by omega
      have after : a * unit + rest < a * unit ↔ rest < 0 := by omega
      simp only [before, after]
    rw [shifted, Int.compare_eq_eq.2 rfl]
    rfl
  · have step : (whole + 1) * unit ≤ a * unit :=
      Int.mul_le_mul_of_nonneg_right above (by omega)
    rw [Int.add_mul, Int.one_mul] at step
    have more : whole * unit + rest < a * unit := by omega
    rw [Int.compare_eq_gt.2 above, Int.compare_eq_gt.2 more]
    rfl

@[simp] theorem signed_false (amount : Nat) : signed false amount = amount := rfl

@[simp] theorem signed_true (amount : Nat) : signed true amount = -(amount : Int) := rfl

theorem signed_div_mod (negative : Bool) (amount unit : Nat) :
    signed negative amount =
      signed negative (amount / unit) * unit + signed negative (amount % unit) := by
  have parts : (amount : Int) = (amount / unit : Nat) * unit + (amount % unit : Nat) := by
    rw [Int.mul_comm]
    exact_mod_cast (Nat.div_add_mod amount unit).symm
  cases negative with
  | false => exact parts
  | true =>
    rw [signed_true, signed_true, signed_true, Int.neg_mul]
    omega

theorem compare_zero_signed (negative : Bool) (rest : Nat) :
    compare 0 (signed negative rest) =
      if rest == 0 then .eq else if negative then .gt else .lt := by
  by_cases none : rest = 0
  · subst none
    cases negative <;> rfl
  · have some : (rest == 0) = false := by simpa using none
    rw [some, if_neg Bool.false_ne_true]
    cases negative with
    | false => exact Int.compare_eq_lt.2 (by rw [signed_false]; omega)
    | true => exact Int.compare_eq_gt.2 (by rw [signed_true]; omega)

theorem signed_bounds {negative : Bool} {rest unit : Nat} (h : rest < unit) :
    -(unit : Int) < signed negative rest ∧ signed negative rest < unit := by
  cases negative with
  | false =>
    rw [signed_false]
    omega
  | true =>
    rw [signed_true]
    omega

-- ============================================================================
-- Integers and floats
-- ============================================================================

/-- No integer of 64 bits is as large as infinity. -/
theorem limit_lt_infinity : 2 ^ 63 * unitsPerOne < 2 ^ 2098 := by
  have exponents : 63 + 1074 < 2098 := by decide
  rw [← two_pow_add_units]
  revert exponents
  generalize 63 + 1074 = low, 2098 = high
  exact Nat.pow_lt_pow_right Nat.one_lt_two

/-- The range of the integers in any units. -/
theorem units_bounds (a : Int64) {unit : Nat} (positive : 0 < unit) :
    -((2 ^ 63 * unit : Nat) : Int) ≤ a.toInt * unit ∧
      a.toInt * unit < (2 ^ 63 * unit : Nat) := by
  have low := Int.mul_le_mul_of_nonneg_right (Int64.le_toInt a) (Int.natCast_nonneg unit)
  have high := Int.mul_lt_mul_of_pos_right (Int64.toInt_lt a) (Int.natCast_pos.2 positive)
  omega

/-- The whole part of a float inside the range is in the range as well, so that its
    conversion keeps it. -/
theorem signed_div_range {negative : Bool} {amount unit : Nat}
    (above : ¬(!negative && decide (2 ^ 63 * unit ≤ amount)) = true)
    (below : ¬(negative && decide (2 ^ 63 * unit < amount)) = true) :
    -2 ^ 63 ≤ signed negative (amount / unit) ∧ signed negative (amount / unit) < 2 ^ 63 := by
  cases negative with
  | false =>
    have small : amount < 2 ^ 63 * unit := by simpa using above
    have bound := Nat.div_lt_of_lt_mul (Nat.mul_comm _ _ ▸ small)
    rw [signed_false]
    generalize amount / unit = whole at bound ⊢
    omega
  | true =>
    have small : amount ≤ 2 ^ 63 * unit := by simpa using below
    have bound := Nat.div_le_of_le_mul (Nat.mul_comm _ _ ▸ small)
    rw [signed_true]
    generalize amount / unit = whole at bound ⊢
    omega

theorem toInt_ofIntClamp_of_range {whole : Int} (range : -2 ^ 63 ≤ whole ∧ whole < 2 ^ 63) :
    (Int64.ofIntClamp whole).toInt = whole := by
  apply Int64.toInt_ofIntClamp
  · rw [Int64.toInt_minValue]
    exact range.1
  · rw [Int64.toInt_maxValue]
    have := range.2
    omega

/-- The order of an integer and a float is that of their exact values. -/
theorem compareInt?_eq (a : Int64) (x : Float) :
    compareInt? a x = (units? x).map (compare (a.toInt * unitsPerOne)) := by
  obtain ⟨low, high⟩ := units_bounds a unitsPerOne_pos
  unfold compareInt? place? units?
  cases read x with
  | notANumber => rfl
  | infinite negative =>
    have beyond := limit_lt_infinity
    cases negative with
    | false => exact congrArg some (Int.compare_eq_lt.2 (by rw [signed_false]; omega)).symm
    | true => exact congrArg some (Int.compare_eq_gt.2 (by rw [signed_true]; omega)).symm
  | finite negative significand scale =>
    simp only [Option.map_some]
    generalize size significand scale = amount
    split
    · rename_i beyond
      obtain ⟨rfl, large⟩ : negative = false ∧ 2 ^ 63 * unitsPerOne ≤ amount := by
        simpa using beyond
      exact congrArg some (Int.compare_eq_lt.2 (by rw [signed_false]; omega)).symm
    split
    · rename_i beyond
      obtain ⟨rfl, large⟩ : negative = true ∧ 2 ^ 63 * unitsPerOne < amount := by
        simpa using beyond
      exact congrArg some (Int.compare_eq_gt.2 (by rw [signed_true]; omega)).symm
    · rename_i above below
      obtain ⟨least, most⟩ :=
        @signed_bounds negative _ _ (Nat.mod_lt amount unitsPerOne_pos)
      rw [Option.map_some, Place.order,
        toInt_ofIntClamp_of_range (signed_div_range above below),
        signed_div_mod negative amount unitsPerOne, compare_mul_add least most,
        compare_zero_signed]

-- ============================================================================
-- Equal numbers
-- ============================================================================

theorem units?_eq_none_iff {x : Float} : units? x = none ↔ read x = .notANumber := by
  unfold units?
  constructor
  · intro h
    split at h
    · assumption
    · cases h
    · cases h
  · intro h
    rw [h]

/-- An integer and a float compare as equal just when they have the same value. -/
theorem compareInt?_eq_some_eq_iff {a : Int64} {x : Float} :
    compareInt? a x = some .eq ↔ units? x = some (a.toInt * unitsPerOne) := by
  rw [compareInt?_eq, Option.map_eq_some_iff]
  constructor
  · rintro ⟨amount, value, same⟩
    rw [Int.compare_eq_eq] at same
    rw [value, same]
  · intro value
    exact ⟨_, value, Int.compare_eq_eq.2 rfl⟩

/-- Two floats are equal just when they are numbers of the same value. -/
theorem equal_iff {x y : Float} :
    equal x y = true ↔ ∃ amount, units? x = some amount ∧ units? y = some amount := by
  unfold equal compare?
  cases units? x with
  | none => simp
  | some left =>
    cases units? y with
    | none => simp
    | some right =>
      change (some (compare left right) == some .eq) = true ↔ _
      rw [beq_iff_eq, Option.some.injEq, Int.compare_eq_eq]
      constructor
      · rintro rfl
        exact ⟨left, rfl, rfl⟩
      · rintro ⟨amount, first, second⟩
        rw [Option.some.inj first, Option.some.inj second]

end ExprMachine.Binary64
