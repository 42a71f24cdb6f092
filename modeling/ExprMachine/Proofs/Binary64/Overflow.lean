/-
  ExprMachine.Proofs.Binary64.Overflow

  Which quotients are rounded to a finite float. A rounded quotient is at least as near as
  every other float, so the largest finite float takes all that lies less than half a step
  beyond it, and what lies further is rounded to the infinity.
-/
import ExprMachine.Proofs.Binary64.Finite

namespace ExprMachine.Binary64

open Float.Model (UnpackedFloat Format)
open Float.Model.UnpackedFloat

-- ============================================================================
-- The nearest whole number
-- ============================================================================

/-- Whether a whole number is nearest to a quotient, and even when the quotient lies half a
    step above it. -/
structure Nearest (numerator denominator whole : Nat) : Prop where
  above : 2 * whole * denominator ≤ 2 * numerator + denominator
  below : 2 * numerator ≤ 2 * whole * denominator + denominator
  tie : 2 * numerator = 2 * whole * denominator + denominator → whole % 2 = 0

theorem nearest_roundedMantissa (numerator : Nat) {denominator : Nat}
    (positive : 0 < denominator) :
    Nearest numerator denominator (quotient numerator denominator).roundedMantissa := by
  have bound := Nat.mod_lt numerator positive
  have parts := Nat.mod_add_div numerator denominator
  rw [quotient_eq_fraction _ positive, roundedMantissa_ofMantissaAndAccuracy, accuracyOfFraction]
  generalize numerator % denominator = rest at *
  generalize numerator / denominator = floor at *
  have double (whole : Nat) : 2 * whole * denominator = 2 * (denominator * whole) := by
    rw [Nat.mul_assoc, Nat.mul_comm whole]
  by_cases zero : rest = 0
  · rw [if_pos zero]
    change Nearest numerator denominator floor
    constructor <;> rw [double] <;> omega
  rw [if_neg zero]
  rcases Nat.lt_trichotomy (2 * rest) denominator with less | half | more
  · rw [Nat.compare_eq_lt.2 less]
    change Nearest numerator denominator floor
    constructor <;> rw [double] <;> omega
  · rw [Nat.compare_eq_eq.2 half]
    change Nearest numerator denominator (floor + floor % 2)
    rcases Nat.mod_two_eq_zero_or_one floor with even | odd
    · rw [even, Nat.add_zero]
      exact ⟨by rw [double]; omega, by rw [double]; omega, fun _ => even⟩
    · rw [odd]
      constructor <;> rw [double, Nat.mul_succ] <;> omega
  · rw [Nat.compare_eq_gt.2 more]
    change Nearest numerator denominator (floor + 1)
    constructor <;> rw [double, Nat.mul_succ] <;> omega

/-- Rounding stays below an even number just when the quotient lies more than half a step
    below it. -/
theorem roundedMantissa_lt_iff {numerator denominator whole : Nat} (positive : 0 < denominator)
    (even : whole % 2 = 0) :
    (quotient numerator denominator).roundedMantissa < whole ↔
      2 * numerator + denominator < 2 * whole * denominator := by
  obtain ⟨above, below, tie⟩ := nearest_roundedMantissa numerator positive
  generalize (quotient numerator denominator).roundedMantissa = nearest at *
  simp only [Nat.mul_assoc] at *
  constructor
  · intro less
    have step : (nearest + 1) * denominator ≤ whole * denominator :=
      Nat.mul_le_mul_right _ less
    rw [Nat.succ_mul] at step
    rcases Nat.lt_or_eq_of_le below with noTie | half
    · omega
    -- A tie went to an even number, and so not to the one just below an even one.
    · have := tie half
      have steps : (nearest + 2) * denominator ≤ whole * denominator :=
        Nat.mul_le_mul_right _ (by omega)
      rw [Nat.add_mul] at steps
      omega
  · intro less
    exact Nat.lt_of_mul_lt_mul_right (a := denominator) (by omega)

-- ============================================================================
-- Beyond the largest float
-- ============================================================================

/-- A scale beyond those of finite floats is packed as the infinity. -/
theorem read_pack_large {sign : Sign} {mantissa scale : Nat} {positive : 0 < mantissa}
    (large : 2046 ≤ scale) :
    read (.ofModel (.pack (.finite sign mantissa (scale - 1074) positive))) =
      .infinite (sign == .negative) := by
  have biased : (((scale : Int) - 1074) + Format.binary64.exponentBias +
      Format.binary64.mantissaBitsWithoutImplicit).toNat = scale + 1 := by
    change (((scale : Int) - 1074) + 1023 + 52).toNat = scale + 1
    omega
  have top : 2 ^ Format.binary64.exponentBits ≤ scale + 1 + 1 := by
    change 2 ^ 11 ≤ scale + 1 + 1
    omega
  rw [read_ofModel_pack]
  simp only [pack, biased, if_pos top]
  cases sign <;> decide

/-- The amount of units half a step beyond the largest finite float. -/
def overflow : Nat := (2 ^ 54 - 1) * 2 ^ 2044

section Rounded

variable {numerator denominator target : Nat} (positive : 0 < denominator)
  (atTarget : AtScale numerator denominator target)
include positive atTarget

/-- What is rounded to the next power of two after the largest float, or at a scale beyond
    those of finite floats, is infinite. -/
theorem read_rounded_large (large : 2045 < target ∨ 2045 = target ∧
      2 ^ 53 ≤ (quotient numerator (2 ^ target * denominator)).roundedMantissa) :
    read (.ofModel (.pack (rounded .positive
      (quotient numerator (2 ^ target * denominator)).roundedMantissa target))) =
        .infinite false := by
  obtain ⟨least, most⟩ := roundedMantissa_bounds numerator
    (Nat.mul_pos (Nat.two_pow_pos target) positive)
  have coarse := atTarget.normal (by omega)
  have bound := atTarget.bound
  generalize (quotient _ _).roundedMantissa = whole at *
  rw [rounded]
  by_cases carried : whole = 2 ^ 53
  · rw [if_pos carried]
    exact read_pack_large (show 2046 ≤ target + 1 by omega)
  · rw [if_neg carried, dif_neg (by omega)]
    exact read_pack_large (by omega)

/-- A quotient is rounded to a finite float just when it lies less than half a step beyond
    the largest one. -/
theorem isFinite_rounded_iff :
    isFinite (.ofModel (.pack (rounded .positive
        (quotient numerator (2 ^ target * denominator)).roundedMantissa target))) = true ↔
      numerator < overflow * denominator := by
  have step : 0 < 2 ^ target * denominator := Nat.mul_pos (Nat.two_pow_pos _) positive
  have bound := (Nat.div_lt_iff_lt_mul step).1 atTarget.bound
  obtain ⟨top, htop⟩ : ∃ top, top = 2044 := ⟨_, rfl⟩
  rw [overflow, ← htop, Nat.mul_assoc]
  rcases Nat.lt_trichotomy target (top + 1) with less | rfl | more
  · obtain ⟨_, _, hread, -⟩ := read_rounded_quotient positive atTarget (by omega)
    have scales : 2 ^ target * denominator ≤ 2 ^ top * denominator :=
      Nat.mul_le_mul_right _ (Nat.pow_le_pow_right (by decide) (by omega))
    exact iff_of_true (isFinite_of_read hread) (by omega)
  · have half : 2 ^ (top + 1) * denominator = 2 * (2 ^ top * denominator) := by
      rw [Nat.pow_succ', Nat.mul_assoc]
    -- The number after the largest significand is even, and so takes the tie.
    have carries : (quotient numerator (2 ^ (top + 1) * denominator)).roundedMantissa < 2 ^ 53 ↔
        _ := roundedMantissa_lt_iff step (by decide)
    by_cases small :
        (quotient numerator (2 ^ (top + 1) * denominator)).roundedMantissa < 2 ^ 53
    · obtain ⟨least, -⟩ := roundedMantissa_bounds numerator step
      have normal := atTarget.normal (by omega)
      have hread := @read_rounded .positive _ (top + 1) small
        (fun _ => Nat.le_trans normal least) (by omega)
      have := carries.1 small
      exact iff_of_true (isFinite_of_read hread) (by omega)
    · have hread := read_rounded_large positive atTarget (.inr ⟨by omega, by omega⟩)
      have := mt carries.2 small
      exact iff_of_false (by rw [isFinite, hread]; decide) (by omega)
  · have hread := read_rounded_large positive atTarget (.inl (by omega))
    have normal := (Nat.le_div_iff_mul_le step).1 (atTarget.normal (by omega))
    have scales : 2 ^ (top + 2) * denominator ≤ 2 ^ target * denominator :=
      Nat.mul_le_mul_right _ (Nat.pow_le_pow_right (by decide) (by omega))
    rw [Nat.pow_add, Nat.mul_right_comm] at scales
    exact iff_of_false (by rw [isFinite, hread]; decide) (by omega)

/-- Between a float below a quotient and the quotient lies a whole number of the steps that
    the quotient is rounded to. -/
theorem exists_multiple {mantissa scale : Nat} (bound : mantissa ≤ 2 ^ 53)
    (below : mantissa * 2 ^ scale * denominator ≤ numerator) :
    ∃ whole, mantissa * 2 ^ scale ≤ whole * 2 ^ target ∧
      whole * (2 ^ target * denominator) ≤ numerator := by
  rcases Nat.lt_or_ge scale target with finer | coarser
  · refine ⟨2 ^ 52, ?_, ?_⟩
    · calc mantissa * 2 ^ scale
        _ ≤ 2 ^ 53 * 2 ^ scale := Nat.mul_le_mul_right _ bound
        _ = 2 ^ 52 * 2 ^ (scale + 1) := by rw [Nat.pow_succ']; omega
        _ ≤ 2 ^ 52 * 2 ^ target :=
          Nat.mul_le_mul_left _ (Nat.pow_le_pow_right (by decide) finer)
    · exact (Nat.le_div_iff_mul_le (Nat.mul_pos (Nat.two_pow_pos _) positive)).1
        (atTarget.normal (by omega))
  · obtain ⟨more, rfl⟩ := Nat.exists_eq_add_of_le coarser
    have multiple : mantissa * 2 ^ (target + more) = mantissa * 2 ^ more * 2 ^ target := by
      rw [Nat.pow_add, Nat.mul_assoc, Nat.mul_comm (2 ^ target)]
    refine ⟨mantissa * 2 ^ more, Nat.le_of_eq multiple, ?_⟩
    rw [← Nat.mul_assoc, ← multiple]
    exact below

/-- No float below a quotient is nearer to it than what it is rounded to. -/
theorem rounded_add_le {mantissa scale : Nat} (bound : mantissa ≤ 2 ^ 53)
    (below : mantissa * 2 ^ scale * denominator ≤ numerator) :
    (quotient numerator (2 ^ target * denominator)).roundedMantissa * 2 ^ target * denominator +
      mantissa * 2 ^ scale * denominator ≤ 2 * numerator := by
  obtain ⟨whole, least, most⟩ := exists_multiple positive atTarget bound below
  have near := (nearest_roundedMantissa numerator
    (Nat.mul_pos (Nat.two_pow_pos target) positive)).above
  have least := Nat.mul_le_mul_right denominator least
  generalize (quotient _ _).roundedMantissa = nearest at *
  rw [Nat.mul_assoc 2] at near
  rw [Nat.mul_assoc whole] at least
  rw [Nat.mul_assoc nearest]
  rcases Nat.lt_or_ge whole nearest with less | more
  · have step := Nat.mul_le_mul_right (2 ^ target * denominator) less
    rw [Nat.succ_mul] at step
    omega
  · have steps := Nat.mul_le_mul_right (2 ^ target * denominator) more
    omega

/-- A quotient that is a float is rounded to itself. -/
theorem rounded_eq {mantissa scale : Nat} (bound : mantissa ≤ 2 ^ 53)
    (value : mantissa * 2 ^ scale * denominator = numerator) :
    (quotient numerator (2 ^ target * denominator)).roundedMantissa * 2 ^ target =
      mantissa * 2 ^ scale := by
  obtain ⟨whole, least, most⟩ := exists_multiple positive atTarget bound (Nat.le_of_eq value)
  have exact : whole * (2 ^ target * denominator) = numerator := by
    refine Nat.le_antisymm most ?_
    rw [← value, ← Nat.mul_assoc]
    exact Nat.mul_le_mul_right _ least
  have step : 0 < 2 ^ target * denominator := Nat.mul_pos (Nat.two_pow_pos _) positive
  have nearest : (quotient numerator (2 ^ target * denominator)).roundedMantissa = whole := by
    apply roundedMantissa_quotient step <;> rw [Nat.mul_assoc, exact] <;> omega
  rw [nearest]
  refine Nat.eq_of_mul_eq_mul_right positive ?_
  rw [Nat.mul_assoc, exact, value]

end Rounded

end ExprMachine.Binary64
