/-
  ExprMachine.Proofs.Value.Order

  One order for all that can be compared: numbers, whether integers or floats, by their
  exact values, and texts by their characters. It is reversed when the operands change
  places, it is transitive, and its ties are the equal values of the language.
-/
import ExprMachine.Operators.Standard
import ExprMachine.Proofs.Value.Equality

namespace ExprMachine

-- ============================================================================
-- The order of texts
-- ============================================================================

namespace Registry

theorem compareTexts_isLE {a b : String} : (compareTexts a b).isLE = true ↔ a ≤ b := by
  rw [← String.not_lt, compareTexts]
  by_cases less : a < b
  · rw [if_pos less]
    simpa using String.lt_asymm less
  · rw [if_neg less]
    by_cases greater : b < a
    · simp [greater]
    · simp [greater]

theorem compareTexts_eq {a b : String} : compareTexts a b = .eq ↔ a = b := by
  constructor
  · intro same
    have below : a ≤ b := compareTexts_isLE.1 (by rw [same]; rfl)
    refine String.le_antisymm below (String.not_lt.1 fun less => ?_)
    rw [compareTexts, if_pos less] at same
    cases same
  · rintro rfl
    simp [compareTexts]

instance : Std.OrientedCmp compareTexts where
  eq_swap {a b} := by
    unfold compareTexts
    by_cases less : a < b
    · rw [if_pos less, if_neg (String.lt_asymm less), if_pos less]
      rfl
    · rw [if_neg less]
      by_cases greater : b < a
      · rw [if_pos greater, if_pos greater]
        rfl
      · rw [if_neg greater, if_neg greater, if_neg less]
        rfl

instance : Std.TransCmp compareTexts where
  isLE_trans first second :=
    compareTexts_isLE.2 (String.le_trans (compareTexts_isLE.1 first) (compareTexts_isLE.1 second))

end Registry

namespace Value

-- ============================================================================
-- What can be compared
-- ============================================================================

/-- Whether a value is an integer or a float. -/
inductive IsNumber : Value → Prop where
  | int (value : Int64) : IsNumber (.int value)
  | float (value : Float) : IsNumber (.float value)

/-- Whether a value is the float that is not a number. -/
def IsNaN (value : Value) : Prop :=
  ∃ x, value = .float x ∧ Binary64.read x = .notANumber

/-- Whether two values are both numbers, of whatever types, or both texts. -/
inductive Comparable : Value → Value → Prop where
  | numbers {a b} (left : IsNumber a) (right : IsNumber b) : Comparable a b
  | texts {a b} : Comparable (.text a) (.text b)

theorem Comparable.symm {a b : Value} (h : Comparable a b) : Comparable b a := by
  cases h with
  | numbers left right => exact .numbers right left
  | texts => exact .texts

theorem Comparable.trans {a b c : Value} (first : Comparable a b) (second : Comparable b c) :
    Comparable a c := by
  cases first with
  | numbers left middle =>
    cases second with
    | numbers _ right => exact .numbers left right
    | texts => cases middle
  | texts =>
    cases second with
    | numbers middle _ => cases middle
    | texts => exact .texts

theorem units?_eq_none_iff {a : Value} (number : IsNumber a) : units? a = none ↔ IsNaN a := by
  cases number with
  | int n =>
    refine ⟨nofun, ?_⟩
    rintro ⟨x, same, -⟩
    cases same
  | float x =>
    rw [units?, Binary64.units?_eq_none_iff]
    constructor
    · exact fun notANumber => ⟨x, rfl, notANumber⟩
    · rintro ⟨y, same, notANumber⟩
      cases same
      exact notANumber

theorem not_isNaN_text (content : String) : ¬ IsNaN (.text content) := by
  rintro ⟨x, same, -⟩
  cases same

-- ============================================================================
-- The order
-- ============================================================================

/-- The order of two numbers by their exact values, and of two texts by their
    characters. What is not a number has no order. -/
def order? : Value → Value → Option Ordering
  | .text a, .text b => some (Registry.compareTexts a b)
  | a, b => (units? a).bind fun left => (units? b).map (compare left)

variable {a b c : Value}

theorem order?_numbers (left : IsNumber a) :
    order? a b = (units? a).bind fun left => (units? b).map (compare left) := by
  cases left <;> rfl

theorem order?_swap (h : Comparable a b) : order? b a = (order? a b).map Ordering.swap := by
  cases h with
  | numbers left right =>
    rw [order?_numbers left, order?_numbers right]
    cases units? a with
    | none => cases units? b <;> rfl
    | some x =>
      cases units? b with
      | none => rfl
      | some y => exact congrArg some Std.OrientedCmp.eq_swap
  | texts => exact congrArg some Std.OrientedCmp.eq_swap

theorem order?_eq_none_iff (h : Comparable a b) : order? a b = none ↔ IsNaN a ∨ IsNaN b := by
  cases h with
  | numbers left right =>
    rw [order?_numbers left, ← units?_eq_none_iff left, ← units?_eq_none_iff right]
    cases units? a <;> cases units? b <;> simp
  | texts => simp [order?, not_isNaN_text]

theorem order?_int_int (n m : Int64) :
    order? (.int n) (.int m) = some (compare n.toInt m.toInt) := by
  have positive := Binary64.unitsPerOne_pos
  have scaled :=
    @Binary64.compare_mul_add n.toInt m.toInt 0 Binary64.unitsPerOne (by omega) (by omega)
  rw [Int.add_zero, Int.compare_eq_eq.2 rfl, Ordering.then_eq] at scaled
  exact congrArg some scaled

theorem order?_int_float (n : Int64) (y : Float) :
    order? (.int n) (.float y) = Binary64.compareInt? n y :=
  (Binary64.compareInt?_eq n y).symm

theorem order?_float_int (x : Float) (m : Int64) :
    order? (.float x) (.int m) = (Binary64.compareInt? m x).map Ordering.swap := by
  rw [order?_swap (.numbers (.int m) (.float x)), order?_int_float]

theorem order?_float_float (x y : Float) :
    order? (.float x) (.float y) = Binary64.compare? x y := by
  rw [order?_numbers (.float x), Binary64.compare?, units?, units?]
  cases Binary64.units? x <;> cases Binary64.units? y <;> rfl

/-- Two values that come in some order both have values to be compared by. -/
theorem units?_of_order? (left : IsNumber a) {order : Ordering} (h : order? a b = some order) :
    ∃ x y, units? a = some x ∧ units? b = some y ∧ compare x y = order := by
  rw [order?_numbers left] at h
  obtain ⟨x, hx, h⟩ := Option.bind_eq_some_iff.1 h
  obtain ⟨y, hy, h⟩ := Option.map_eq_some_iff.1 h
  exact ⟨x, y, hx, hy, h⟩

/-- Two orders that share a value compose, whether all three values are numbers or texts. -/
theorem order?_compose (hab : Comparable a b) (hbc : Comparable b c) {first second : Ordering}
    (hfirst : order? a b = some first) (hsecond : order? b c = some second) :
    ∃ order, order? a c = some order ∧
      (first = .lt → second = .lt → order = .lt) ∧
      (first.isLE = true → second.isLE = true → order.isLE = true) := by
  cases hab with
  | numbers left middle =>
    obtain ⟨x, y, hx, hy, rfl⟩ := units?_of_order? left hfirst
    obtain ⟨y', z, hy', hz, rfl⟩ := units?_of_order? middle hsecond
    obtain rfl := Option.some.inj (hy.symm.trans hy')
    refine ⟨compare x z, ?_, Std.TransCmp.lt_trans, Std.TransCmp.isLE_trans⟩
    rw [order?_numbers left, hx, hz]
    rfl
  | texts =>
    cases hbc with
    | numbers middle _ => cases middle
    | texts =>
      obtain rfl := Option.some.inj hfirst
      obtain rfl := Option.some.inj hsecond
      exact ⟨_, rfl, Std.TransCmp.lt_trans, Std.TransCmp.isLE_trans⟩

/-- Values that are compared are equal in the language just when neither comes first. -/
theorem looseEq_eq_order? (h : Comparable a b) : looseEq a b = (order? a b == some .eq) := by
  rw [Bool.eq_iff_iff, beq_iff_eq]
  cases h with
  | numbers left right =>
    constructor
    · intro same
      cases looseEq_iff.1 same with
      | number hx hy =>
        rw [order?_numbers left, hx, hy]
        exact congrArg some (Int.compare_eq_eq.2 rfl)
      | _ => cases left
    · intro same
      obtain ⟨x, y, hx, hy, same⟩ := units?_of_order? left same
      rw [Int.compare_eq_eq] at same
      exact looseEq_of_units? hx (same ▸ hy)
  | texts =>
    rw [order?, Option.some.injEq, Registry.compareTexts_eq, looseEq, strictEq, beq_iff_eq]
    all_goals simp

end Value

end ExprMachine
