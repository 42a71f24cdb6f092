/-
  ExprMachine.Proofs.Binary64.Values

  The value of a float as a rational number between two infinities. Integers are compared
  with these values, and the conversion of a whole part never leaves the 64 bits.
-/
import Mathlib.Data.Rat.Floor
import Mathlib.Order.WithBot
import ExprMachine.Proofs.Binary64.Comparison

namespace ExprMachine.Binary64

-- ============================================================================
-- Values
-- ============================================================================

/-- The rational numbers between two infinities. -/
abbrev Extended := WithBot (WithTop ℚ)

/-- A rational number among them. -/
def Extended.ofRat (value : ℚ) : Extended := ((value : WithTop ℚ) : WithBot (WithTop ℚ))

/-- The value of a float by its sign, significand and exponent. A float that is not a
    number has none. -/
def value? (x : Float) : Option Extended :=
  match read x with
  | .notANumber => none
  | .infinite negative => some (if negative then ⊥ else ⊤)
  | .finite negative significand scale =>
    some (.ofRat ((if negative then -1 else 1) * significand * 2 ^ ((scale : ℤ) - 1074)))

/-- The integer part of a number, toward zero. -/
def truncate (value : ℚ) : ℤ := if 0 ≤ value then ⌊value⌋ else ⌈value⌉

theorem Extended.ofRat_strictMono : StrictMono Extended.ofRat :=
  WithBot.coe_strictMono.comp WithTop.coe_strictMono

theorem compare_map {α β : Type} [LinearOrder α] [LinearOrder β] {f : α → β}
    (h : StrictMono f) (x y : α) : compare (f x) (f y) = compare x y := by
  have := h.cmp_map_eq x y
  rwa [cmp_eq_compare, cmp_eq_compare] at this

theorem zpow_natCast_sub (scale units : Nat) :
    (2 : ℚ) ^ ((scale : ℤ) - units) = 2 ^ scale / (2 ^ units : Nat) := by
  rw [zpow_sub₀ two_ne_zero, zpow_natCast, zpow_natCast, Nat.cast_pow, Nat.cast_two]

/-- The value of a finite float is its size in units over the units in one. -/
theorem value?_finite {x : Float} {negative : Bool} {significand scale : Nat}
    (h : read x = .finite negative significand scale) :
    value? x = some (.ofRat (signed negative (size significand scale) / unitsPerOne)) := by
  have power : (2 : ℚ) ^ ((scale : ℤ) - 1074) = 2 ^ scale / unitsPerOne := by
    have split := zpow_natCast_sub scale 1074
    rwa [Nat.cast_ofNat, ← unitsPerOne] at split
  unfold value?
  rw [h]
  dsimp only
  rw [power, size]
  generalize unitsPerOne = unit
  cases negative with
  | false => simp [mul_div_assoc]
  | true => simp [mul_div_assoc, neg_div]

-- ============================================================================
-- Whole parts
-- ============================================================================

theorem truncate_neg (value : ℚ) : truncate (-value) = -truncate value := by
  unfold truncate
  rcases lt_trichotomy value 0 with below | rfl | above
  · rw [if_pos (by linarith), if_neg (by linarith), Int.floor_neg]
  · simp
  · rw [if_neg (by linarith), if_pos above.le, Int.ceil_neg]

/-- Division of sizes is division toward zero of what they stand for. -/
theorem truncate_signed (negative : Bool) (amount unit : Nat) :
    truncate (signed negative amount / unit) = signed negative (amount / unit) := by
  have whole : truncate ((amount : ℚ) / unit) = (amount / unit : Nat) := by
    have floor := Rat.floor_intCast_div_natCast amount unit
    rw [Int.cast_natCast] at floor
    rw [truncate, if_pos (by positivity), floor, Int.natCast_div]
  cases negative with
  | false => rw [signed_false, signed_false, Int.cast_natCast, whole]
  | true =>
    rw [signed_true, signed_true, Int.cast_neg, Int.cast_natCast, neg_div, truncate_neg, whole]

/-- A float inside the range of the integers is finite, and its whole part is in the range. -/
theorem whole_of_place? {x : Float} {whole : Int} {side : Ordering}
    (h : place? x = some (.within whole side)) :
    ∃ value : ℚ, value? x = some (.ofRat value) ∧ whole = truncate value ∧
      -2 ^ 63 ≤ whole ∧ whole < 2 ^ 63 := by
  unfold place? at h
  cases form : read x with
  | notANumber =>
    rw [form] at h
    cases h
  | infinite negative =>
    rw [form] at h
    cases negative <;> cases h
  | finite negative significand scale =>
    rw [form] at h
    dsimp only at h
    split at h
    · cases h
    split at h
    · cases h
    · rename_i above below
      injection h with h
      injection h with same _
      subst same
      exact ⟨_, value?_finite form, (truncate_signed negative _ _).symm,
        signed_div_range above below⟩

-- ============================================================================
-- Integers and values
-- ============================================================================

/-- The order in units is the order of the values. -/
theorem compare_units (a : Int64) (units : Int) :
    compare (a.toInt * unitsPerOne) units =
      compare (Extended.ofRat a.toInt) (Extended.ofRat (units / unitsPerOne)) := by
  have positive : (0 : ℚ) < unitsPerOne := by exact_mod_cast unitsPerOne_pos
  have scaled : StrictMono fun n : ℤ => (n : ℚ) / unitsPerOne := by
    intro m n less
    exact div_lt_div_of_pos_right (by exact_mod_cast less) positive
  have exact : (a.toInt : ℚ) = ((a.toInt * unitsPerOne : ℤ) : ℚ) / unitsPerOne := by
    rw [Int.cast_mul, Int.cast_natCast, mul_div_cancel_right₀ _ positive.ne']
  rw [compare_map Extended.ofRat_strictMono, exact]
  exact (compare_map scaled _ _).symm

/-- An integer stands to a float as it does to the exact value of the float, and to what is
    not a number in no order at all. The whole part that is converted is the one of that
    value, cut off toward zero, and an integer of 64 bits. -/
theorem compareInt?_exact (a : Int64) (x : Float) :
    compareInt? a x = (value? x).map (compare (Extended.ofRat a.toInt)) ∧
      ∀ whole side, place? x = some (.within whole side) →
        ∃ value : ℚ, value? x = some (.ofRat value) ∧ whole = truncate value ∧
          -2 ^ 63 ≤ whole ∧ whole < 2 ^ 63 := by
  refine ⟨?_, fun whole side => whole_of_place?⟩
  cases form : read x with
  | notANumber =>
    unfold compareInt? place? value?
    rw [form]
    rfl
  | infinite negative =>
    unfold compareInt? place? value?
    rw [form]
    cases negative with
    | false =>
      have below : Extended.ofRat a.toInt < ⊤ := WithBot.coe_lt_coe.2 (WithTop.coe_lt_top _)
      exact congrArg some (compare_lt_iff_lt.2 below).symm
    | true =>
      have above : ⊥ < Extended.ofRat a.toInt := WithBot.bot_lt_coe _
      exact congrArg some (compare_gt_iff_gt.2 above).symm
  | finite negative significand scale =>
    rw [compareInt?_eq, value?_finite form, Option.map_some, ← compare_units]
    unfold units?
    rw [form]
    rfl

end ExprMachine.Binary64
