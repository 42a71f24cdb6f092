/-
  ExprMachine.Proofs.Binary64.Rounding

  Rounding to a float: a quotient of whole numbers goes to the nearest float, and so every
  quotient in the interval around a float goes to that float.
-/
import ExprMachine.Decimal.Shortest
import ExprMachine.Proofs.Binary64.Unpacked

namespace ExprMachine.Binary64

open Float.Model (UnpackedFloat Format totalExponent)
open Float.Model.UnpackedFloat

-- ============================================================================
-- Quotients
-- ============================================================================

/-- The quotient of two numbers with the two bits that rounding looks at: the first bit
    after the point, and whether there is anything after that one. -/
def quotient (numerator denominator : Nat) : ExtendedMantissa where
  mantissa := numerator / denominator
  roundBit := 2 * numerator / denominator % 2 != 0
  stickyBit := 2 * numerator % denominator != 0

theorem shiftRightOne_quotient (numerator denominator : Nat) :
    (quotient numerator denominator).shiftRightOne = quotient numerator (2 * denominator) := by
  have sticky : 2 * numerator % (2 * denominator) =
      2 * numerator % denominator + denominator * (2 * numerator / denominator % 2) := by
    rw [Nat.mul_comm 2 denominator, Nat.mod_mul]
  rw [ExtendedMantissa.shiftRightOne, quotient, quotient]
  congr 1
  · rw [Nat.div_div_eq_div_mul, Nat.mul_comm]
  · rw [Nat.mul_div_mul_left _ _ (by omega)]
  · rw [sticky]
    rcases Nat.eq_zero_or_pos denominator with rfl | positive
    · simp
    · rcases Nat.mod_two_eq_zero_or_one (2 * numerator / denominator) with h | h <;> simp [h]
      omega

theorem shiftRight_quotient (numerator denominator shift : Nat) :
    quotient numerator denominator >>> shift = quotient numerator (2 ^ shift * denominator) := by
  induction shift with
  | zero => rw [Nat.pow_zero, Nat.one_mul]; rfl
  | succ shift ih =>
    change (quotient numerator denominator >>> shift).shiftRightOne = _
    rw [ih, shiftRightOne_quotient, Nat.pow_succ', Nat.mul_assoc]

theorem quotient_eq_fraction (numerator : Nat) {denominator : Nat} (positive : 0 < denominator) :
    quotient numerator denominator =
      .ofMantissaAndAccuracy (numerator / denominator)
        (accuracyOfFraction (numerator % denominator) denominator) := by
  have bound := Nat.mod_lt numerator positive
  have double : 2 * numerator =
      2 * (numerator % denominator) + denominator * (2 * (numerator / denominator)) := by
    have := Nat.mod_add_div numerator denominator
    rw [Nat.mul_left_comm]
    omega
  rw [quotient, double, Nat.add_mul_div_left _ _ positive, Nat.add_mul_mod_self_left,
    Nat.add_mul_mod_self_left, accuracyOfFraction]
  generalize numerator % denominator = rest at *
  rcases Nat.lt_trichotomy (2 * rest) denominator with h | h | h
  · rw [Nat.div_eq_of_lt h, Nat.mod_eq_of_lt h]
    by_cases zero : rest = 0
    · simp [zero, ExtendedMantissa.ofMantissaAndAccuracy]
    · have sticky : 2 * rest ≠ 0 := by omega
      simp [zero, sticky, Nat.compare_eq_lt.2 h, ExtendedMantissa.ofMantissaAndAccuracy]
  · have zero : rest ≠ 0 := by omega
    simp [h, zero, Nat.div_self positive, ExtendedMantissa.ofMantissaAndAccuracy]
  · have zero : rest ≠ 0 := by omega
    have half : 2 * rest / denominator = 1 := Nat.div_eq_of_lt_le (by omega) (by omega)
    have left : 2 * rest % denominator = 2 * rest - denominator := by
      rw [Nat.mod_eq_sub_mod (by omega), Nat.mod_eq_of_lt (by omega)]
    have sticky : 2 * rest - denominator ≠ 0 := by omega
    simp [half, left, zero, sticky, Nat.compare_eq_gt.2 h, ExtendedMantissa.ofMantissaAndAccuracy]

theorem quotient_mul_left (numerator denominator : Nat) {factor : Nat} (positive : 0 < factor) :
    quotient (factor * numerator) (factor * denominator) = quotient numerator denominator := by
  rw [quotient, quotient, Nat.mul_div_mul_left _ _ positive, Nat.mul_left_comm 2,
    Nat.mul_div_mul_left _ _ positive, Nat.mul_mod_mul_left]
  congr 1
  rw [Bool.eq_iff_iff, bne_iff_ne, bne_iff_ne, Nat.mul_ne_zero_iff]
  exact and_iff_right (Nat.ne_of_gt positive)

theorem quotient_congr {numerator denominator other divisor : Nat} (positive : 0 < denominator)
    (positiveDivisor : 0 < divisor) (ratio : numerator * divisor = other * denominator) :
    quotient numerator denominator = quotient other divisor := by
  rw [← quotient_mul_left numerator denominator positiveDivisor, Nat.mul_comm divisor numerator,
    ratio, ← quotient_mul_left other divisor positive, Nat.mul_comm other, Nat.mul_comm divisor]

/-- A multiple of the denominator has nothing after the point. -/
theorem quotient_exact (whole : Nat) {denominator : Nat} (positive : 0 < denominator) :
    quotient (whole * denominator) denominator = .ofMantissaAndAccuracy whole .exact := by
  rw [quotient_eq_fraction _ positive, Nat.mul_div_cancel _ positive, Nat.mul_mod_left,
    accuracyOfFraction, if_pos rfl]

-- ============================================================================
-- The nearest whole number
-- ============================================================================

theorem roundedMantissa_ofMantissaAndAccuracy (mantissa : Nat) (accuracy : Accuracy) :
    (ExtendedMantissa.ofMantissaAndAccuracy mantissa accuracy).roundedMantissa =
      accuracy.roundToNearestEven mantissa := by
  cases accuracy with
  | exact => rfl
  | inexact order => cases order <;> rfl

theorem roundedMantissa_bounds (numerator : Nat) {denominator : Nat} (positive : 0 < denominator) :
    numerator / denominator ≤ (quotient numerator denominator).roundedMantissa ∧
      (quotient numerator denominator).roundedMantissa ≤ numerator / denominator + 1 := by
  rw [quotient_eq_fraction _ positive, roundedMantissa_ofMantissaAndAccuracy]
  generalize numerator / denominator = floor
  generalize accuracyOfFraction _ _ = accuracy
  match accuracy with
  | .exact | .inexact .lt => exact ⟨Nat.le_refl _, Nat.le_succ _⟩
  | .inexact .gt => exact ⟨Nat.le_succ _, Nat.le_refl _⟩
  | .inexact .eq =>
    change floor ≤ floor + floor % 2 ∧ floor + floor % 2 ≤ floor + 1
    omega

/-- Rounding goes to the nearest whole number, and to the even one of two. -/
theorem roundedMantissa_quotient {numerator denominator whole : Nat} (positive : 0 < denominator)
    (above : 2 * whole * denominator ≤ 2 * numerator + denominator)
    (below : 2 * numerator ≤ 2 * whole * denominator + denominator)
    (tie : 2 * whole * denominator = 2 * numerator + denominator ∨
      2 * numerator = 2 * whole * denominator + denominator → whole % 2 = 0) :
    (quotient numerator denominator).roundedMantissa = whole := by
  have bound := Nat.mod_lt numerator positive
  have parts := Nat.mod_add_div numerator denominator
  rw [quotient_eq_fraction _ positive, roundedMantissa_ofMantissaAndAccuracy, accuracyOfFraction]
  rw [Nat.mul_assoc, Nat.mul_comm whole] at *
  generalize numerator % denominator = rest at *
  generalize numerator / denominator = floor at *
  subst parts
  have near : whole = floor ∨ whole = floor + 1 := by
    have lower : denominator * floor < denominator * (whole + 1) := by
      rw [Nat.mul_add]; omega
    have upper : denominator * whole < denominator * (floor + 2) := by
      rw [Nat.mul_add]; omega
    have := Nat.lt_of_mul_lt_mul_left lower
    have := Nat.lt_of_mul_lt_mul_left upper
    omega
  rcases near with rfl | rfl
  · by_cases zero : rest = 0
    · rw [if_pos zero]
      rfl
    rw [if_neg zero]
    rcases Nat.lt_or_eq_of_le (show 2 * rest ≤ denominator by omega) with h | h
    · rw [Nat.compare_eq_lt.2 h]
      rfl
    · rw [Nat.compare_eq_eq.2 h]
      change whole + whole % 2 = whole
      rw [tie (.inr (by omega)), Nat.add_zero]
  · rw [Nat.mul_succ] at above below tie
    rw [if_neg (by omega)]
    rcases Nat.lt_or_eq_of_le (show denominator ≤ 2 * rest by omega) with h | h
    · rw [Nat.compare_eq_gt.2 h]
      rfl
    · rw [Nat.compare_eq_eq.2 h.symm]
      change floor + floor % 2 = floor + 1
      have := tie (.inl (by omega))
      omega

-- ============================================================================
-- Scales
-- ============================================================================

/-- Whether a quotient is rounded at a scale: it has 53 bits there, or fewer at the finest
    scale. -/
structure AtScale (numerator denominator scale : Nat) : Prop where
  bound : numerator / (2 ^ scale * denominator) < 2 ^ 53
  normal : 0 < scale → 2 ^ 52 ≤ numerator / (2 ^ scale * denominator)

theorem AtScale.unique {numerator denominator scale other : Nat}
    (first : AtScale numerator denominator scale) (second : AtScale numerator denominator other) :
    scale = other := by
  have coarser {fine coarse : Nat} (atFine : AtScale numerator denominator fine)
      (atCoarse : AtScale numerator denominator coarse) : ¬ fine < coarse := fun h => by
    have halves : numerator / (2 ^ coarse * denominator) ≤
        numerator / (2 ^ fine * denominator) / 2 := by
      rw [Nat.div_div_eq_div_mul, Nat.mul_right_comm, ← Nat.pow_succ]
      rcases Nat.eq_zero_or_pos denominator with rfl | positive
      · simp
      · exact Nat.div_le_div_left (Nat.mul_le_mul_right _ (Nat.pow_le_pow_right (by decide) h))
          (Nat.mul_pos (Nat.two_pow_pos _) positive)
    have := atFine.bound
    have := atCoarse.normal (by omega)
    omega
  have := coarser first second
  have := coarser second first
  omega

theorem log2_le_of_lt {mantissa : Nat} (bound : mantissa < 2 ^ 53) : mantissa.log2 ≤ 52 := by
  rcases Nat.eq_zero_or_pos mantissa with rfl | positive
  · decide
  · exact Nat.le_of_lt_succ ((Nat.log2_lt (by omega)).2 bound)

theorem targetExponent_eq (mantissa scale : Nat) :
    Format.binary64.targetExponent (totalExponent mantissa (scale - 1074)) =
      ((mantissa.log2 + scale - 52 : Nat) : Int) - 1074 := by
  change max ((mantissa.log2 : Int) + 1 + (scale - 1074) - 53) (-1074) = _
  omega

theorem mantissa_ofMantissaAndAccuracy (mantissa : Nat) (accuracy : Accuracy) :
    (ExtendedMantissa.ofMantissaAndAccuracy mantissa accuracy).mantissa = mantissa := by
  cases accuracy with
  | exact => rfl
  | inexact order => cases order <;> rfl

/-- A mantissa shifted to 53 digits is at a scale of floats, and so is a smaller one at the
    finest scale. -/
theorem AtScale.of_shifted {mantissa shift numerator denominator target : Nat}
    (shifted : numerator / (2 ^ target * denominator) = mantissa / 2 ^ shift)
    (below : mantissa.log2 ≤ 52 + shift) (reaches : 0 < target → 52 + shift ≤ mantissa.log2) :
    AtScale numerator denominator target := by
  refine ⟨?_, fun positive => ?_⟩
  · rw [shifted, Nat.div_lt_iff_lt_mul (Nat.two_pow_pos _), ← Nat.pow_add]
    exact Nat.lt_of_lt_of_le Nat.lt_log2_self (Nat.pow_le_pow_right (by decide) (by omega))
  · have reaches := reaches positive
    rw [shifted, Nat.le_div_iff_mul_le (Nat.two_pow_pos _), ← Nat.pow_add]
    have : mantissa ≠ 0 := by
      rintro rfl
      have : Nat.log2 0 = 0 := rfl
      omega
    exact Nat.le_trans (Nat.pow_le_pow_right (by decide) (by omega)) (Nat.log2_self_le this)

theorem shiftToTargetExponent_quotient {mantissa scale numerator denominator : Nat}
    {accuracy : Accuracy}
    (start : .ofMantissaAndAccuracy mantissa accuracy =
      quotient numerator (2 ^ scale * denominator))
    (enough : 52 ≤ mantissa.log2 ∨ scale = 0) :
    ∃ target, AtScale numerator denominator target ∧
      shiftToTargetExponent Format.binary64 mantissa (scale - 1074) accuracy =
        (quotient numerator (2 ^ target * denominator), (target : Int) - 1074) := by
  have whole : mantissa = numerator / (2 ^ scale * denominator) := by
    rw [← mantissa_ofMantissaAndAccuracy mantissa accuracy, start]
    rfl
  obtain ⟨shift, hshift⟩ : ∃ shift, mantissa.log2 + scale - 52 = scale + shift :=
    ⟨mantissa.log2 + scale - 52 - scale, by omega⟩
  have shifted : numerator / (2 ^ (scale + shift) * denominator) = mantissa / 2 ^ shift := by
    rw [whole, Nat.div_div_eq_div_mul, Nat.pow_add, Nat.mul_right_comm]
  refine ⟨scale + shift, .of_shifted shifted (by omega) (by omega), ?_⟩
  have amount : (((scale + shift : Nat) : Int) - 1074 - (scale - 1074)).toNat = shift := by omega
  rw [shiftToTargetExponent, targetExponent_eq, hshift, shiftToExponent, amount, start,
    shiftRight_quotient, ← Nat.mul_assoc, ← Nat.pow_add, Nat.add_comm shift]
  congr 1
  omega

/-- A quotient that starts below the finest scale is shifted up to a scale of floats. -/
theorem shiftToTargetExponent_finer {mantissa finer numerator denominator : Nat}
    {accuracy : Accuracy}
    (start : .ofMantissaAndAccuracy mantissa accuracy =
      quotient (2 ^ finer * numerator) denominator) :
    ∃ target, AtScale numerator denominator target ∧
      shiftToTargetExponent Format.binary64 mantissa (-(finer : Int) - 1074) accuracy =
        (quotient numerator (2 ^ target * denominator), (target : Int) - 1074) := by
  have whole : mantissa = 2 ^ finer * numerator / denominator := by
    rw [← mantissa_ofMantissaAndAccuracy mantissa accuracy, start]
    rfl
  obtain ⟨target, htarget⟩ : ∃ target, mantissa.log2 - 52 - finer = target := ⟨_, rfl⟩
  have exponent : Format.binary64.targetExponent
      (totalExponent mantissa (-(finer : Int) - 1074)) = (target : Int) - 1074 := by
    change max ((mantissa.log2 : Int) + 1 + (-(finer : Int) - 1074) - 53) (-1074) = _
    omega
  have shifted : numerator / (2 ^ target * denominator) = mantissa / 2 ^ (finer + target) := by
    rw [whole, Nat.div_div_eq_div_mul, Nat.pow_add, Nat.mul_left_comm denominator,
      Nat.mul_div_mul_left _ _ (Nat.two_pow_pos finer), Nat.mul_comm denominator]
  refine ⟨target, .of_shifted shifted (by omega) (by omega), ?_⟩
  have amount : ((target : Int) - 1074 - (-(finer : Int) - 1074)).toNat = finer + target := by
    omega
  rw [shiftToTargetExponent, exponent, shiftToExponent, amount, start, shiftRight_quotient,
    Nat.pow_add, Nat.mul_assoc, quotient_mul_left _ _ (Nat.two_pow_pos finer)]
  congr 1
  omega

theorem shiftToTargetExponent_of_lt {mantissa : Nat} (bound : mantissa < 2 ^ 53) (scale : Nat) :
    shiftToTargetExponent Format.binary64 mantissa (scale - 1074) .exact =
      (.ofMantissaAndAccuracy mantissa .exact, (scale : Int) - 1074) := by
  have small := log2_le_of_lt bound
  have amount :
      (((mantissa.log2 + scale - 52 : Nat) : Int) - 1074 - (scale - 1074)).toNat = 0 := by omega
  rw [shiftToTargetExponent, targetExponent_eq, shiftToExponent, amount]
  exact Prod.ext rfl (by omega)

theorem shiftToTargetExponent_two_pow (scale : Nat) :
    shiftToTargetExponent Format.binary64 (2 ^ 53) (scale - 1074) .exact =
      (.ofMantissaAndAccuracy (2 ^ 52) .exact, ((scale + 1 : Nat) : Int) - 1074) := by
  have amount : ((((2 ^ 53 : Nat).log2 + scale - 52 : Nat) : Int) - 1074 - (scale - 1074)).toNat =
      1 := by
    rw [Nat.log2_two_pow]
    omega
  rw [shiftToTargetExponent, targetExponent_eq, shiftToExponent, amount]
  exact Prod.ext rfl (by omega)

-- ============================================================================
-- Rounded quotients
-- ============================================================================

/-- The float of a whole number at a scale, where the number may have reached the next
    power of two. -/
def rounded (sign : Sign) (whole scale : Nat) : UnpackedFloat :=
  if whole = 2 ^ 53 then .finite sign (2 ^ 52) ((scale + 1 : Nat) - 1074) (by decide)
  else if zero : whole = 0 then .zero sign
  else .finite sign whole (scale - 1074) (Nat.pos_of_ne_zero zero)

/-- A quotient that is shifted to its scale is rounded there; a whole number that reaches the
    next power of two is shifted once more. -/
theorem roundWithAccuracy_of_shifted {mantissa numerator denominator target : Nat} {exponent : Int}
    {accuracy : Accuracy} {sign : Sign} (positive : 0 < denominator)
    (atTarget : AtScale numerator denominator target)
    (shifted : shiftToTargetExponent Format.binary64 mantissa exponent accuracy =
      (quotient numerator (2 ^ target * denominator), (target : Int) - 1074)) :
    roundWithAccuracy Format.binary64 sign mantissa exponent accuracy =
      rounded sign (quotient numerator (2 ^ target * denominator)).roundedMantissa target := by
  have bound : (quotient numerator (2 ^ target * denominator)).roundedMantissa ≤ 2 ^ 53 :=
    Nat.le_trans (roundedMantissa_bounds _ (Nat.mul_pos (Nat.two_pow_pos _) positive)).2
      atTarget.bound
  rw [roundWithAccuracy, shifted]
  simp only
  generalize (quotient numerator (2 ^ target * denominator)).roundedMantissa = whole at *
  rcases Nat.lt_or_eq_of_le bound with small | rfl
  · rw [shiftToTargetExponent_of_lt small, rounded, if_neg (by omega)]
    rfl
  · rw [shiftToTargetExponent_two_pow]
    rfl

theorem roundWithAccuracy_quotient {mantissa scale numerator denominator : Nat}
    {accuracy : Accuracy} {sign : Sign} (positive : 0 < denominator)
    (start : .ofMantissaAndAccuracy mantissa accuracy =
      quotient numerator (2 ^ scale * denominator))
    (enough : 52 ≤ mantissa.log2 ∨ scale = 0) :
    ∃ target, AtScale numerator denominator target ∧
      roundWithAccuracy Format.binary64 sign mantissa (scale - 1074) accuracy =
        rounded sign (quotient numerator (2 ^ target * denominator)).roundedMantissa target := by
  obtain ⟨target, atTarget, shifted⟩ := shiftToTargetExponent_quotient start enough
  exact ⟨target, atTarget, roundWithAccuracy_of_shifted positive atTarget shifted⟩

theorem roundWithAccuracy_finer {mantissa finer numerator denominator : Nat}
    {accuracy : Accuracy} {sign : Sign} (positive : 0 < denominator)
    (start : .ofMantissaAndAccuracy mantissa accuracy =
      quotient (2 ^ finer * numerator) denominator) :
    ∃ target, AtScale numerator denominator target ∧
      roundWithAccuracy Format.binary64 sign mantissa (-(finer : Int) - 1074) accuracy =
        rounded sign (quotient numerator (2 ^ target * denominator)).roundedMantissa target := by
  obtain ⟨target, atTarget, shifted⟩ := shiftToTargetExponent_finer start
  exact ⟨target, atTarget, roundWithAccuracy_of_shifted positive atTarget shifted⟩

theorem read_rounded {sign : Sign} {whole scale : Nat} (bound : whole < 2 ^ 53)
    (normal : 0 < scale → 2 ^ 52 ≤ whole) (inRange : scale ≤ 2045) :
    read (.ofModel (.pack (rounded sign whole scale))) =
      .finite (sign == .negative) whole scale := by
  rw [rounded, if_neg (by omega)]
  split
  · obtain rfl : whole = 0 := ‹_›
    obtain rfl : scale = 0 := by omega
    cases sign <;> decide
  · exact read_pack_finite bound normal inRange

theorem read_rounded_two_pow {sign : Sign} {scale : Nat} (inRange : scale < 2045) :
    read (.ofModel (.pack (rounded sign (2 ^ 53) scale))) =
      .finite (sign == .negative) (2 ^ 52) (scale + 1) := by
  rw [rounded, if_pos rfl]
  exact read_pack_finite (by decide) (fun _ => Nat.le_refl _) inRange

-- ============================================================================
-- Quotients near a float
-- ============================================================================

/-- Whether a quotient lies near a float: at most half a step away from it, below a power of
    two even half as much, and exactly half a step only from an even float. -/
structure Near (numerator denominator significand scale : Nat) : Prop where
  above : 2 * significand * (2 ^ scale * denominator) ≤ 2 * numerator + 2 ^ scale * denominator
  below : 2 * numerator ≤ 2 * significand * (2 ^ scale * denominator) + 2 ^ scale * denominator
  tie : 2 * significand * (2 ^ scale * denominator) = 2 * numerator + 2 ^ scale * denominator ∨
    2 * numerator = 2 * significand * (2 ^ scale * denominator) + 2 ^ scale * denominator →
      significand % 2 = 0
  power : significand = 2 ^ 52 → 0 < scale →
    4 * significand * (2 ^ scale * denominator) ≤ 4 * numerator + 2 ^ scale * denominator

/-- The interval around a float holds only what is near. -/
theorem near_of_holds {numerator denominator significand scale : Nat}
    (held : (Decimal.Interval.around significand scale).holds denominator 4 numerator = true) :
    Near numerator denominator significand scale := by
  have value : 4 * significand * 2 ^ scale * denominator =
      4 * significand * (2 ^ scale * denominator) := Nat.mul_assoc ..
  have below : (if significand = 2 ^ 52 ∧ 0 < scale then 2 ^ scale else 2 * 2 ^ scale) *
      denominator = if significand = 2 ^ 52 ∧ 0 < scale then 2 ^ scale * denominator
      else 2 * (2 ^ scale * denominator) := by
    split
    · rfl
    · rw [Nat.mul_assoc]
  have double : 4 * significand * (2 ^ scale * denominator) =
      2 * (2 * significand * (2 ^ scale * denominator)) := by
    rw [Nat.mul_assoc 4, Nat.mul_assoc 2 significand]
    omega
  simp only [Decimal.Interval.holds, Decimal.Interval.around, Nat.sub_mul, Nat.add_mul, value,
    below, Nat.mul_assoc 2 (2 ^ scale)] at held
  constructor
  all_goals
    generalize 2 ^ scale * denominator = step at *
    generalize 4 * significand * step = point at *
    generalize 2 * significand * step = half at *
    split at held <;>
      simp only [Bool.and_eq_true, decide_eq_true_eq] at held <;> grind

/-- A quotient near a float is rounded at the scale of the float, unless it lies just below
    a power of two. -/
theorem AtScale.of_near {numerator denominator significand scale : Nat}
    (step : 0 < 2 ^ scale * denominator) (bound : significand < 2 ^ 53)
    (normal : 0 < scale → 2 ^ 52 ≤ significand)
    (near : Near numerator denominator significand scale)
    (notBelow : significand = 2 ^ 52 → 0 < scale →
      significand * (2 ^ scale * denominator) ≤ numerator) :
    AtScale numerator denominator scale := by
  have above := near.above
  have below := near.below
  rw [Nat.mul_assoc] at above below
  refine ⟨?_, fun scaled => ?_⟩
  · rw [Nat.div_lt_iff_lt_mul step]
    have := Nat.mul_le_mul_right (2 ^ scale * denominator) bound
    rw [Nat.succ_mul] at this
    omega
  · rw [Nat.le_div_iff_mul_le step]
    rcases Nat.lt_or_eq_of_le (normal scaled) with more | rfl
    · have := Nat.mul_le_mul_right (2 ^ scale * denominator) more
      rw [Nat.succ_mul] at this
      omega
    · exact notBelow rfl scaled

/-- A quotient just below a power of two is rounded at the next finer scale, up to the power
    of two. -/
theorem carries_of_near {numerator denominator finer : Nat}
    (step : 0 < 2 ^ finer * denominator)
    (near : Near numerator denominator (2 ^ 52) (finer + 1))
    (less : numerator < 2 ^ 52 * (2 ^ (finer + 1) * denominator)) :
    AtScale numerator denominator finer ∧
      (quotient numerator (2 ^ finer * denominator)).roundedMantissa = 2 ^ 53 := by
  have above := near.above
  have below := near.below
  have power := near.power rfl (Nat.succ_pos _)
  have double : 2 ^ (finer + 1) * denominator = 2 * (2 ^ finer * denominator) := by
    rw [Nat.pow_succ', Nat.mul_assoc]
  rw [double] at above below power less
  refine ⟨⟨?_, fun _ => ?_⟩, ?_⟩
  · rw [Nat.div_lt_iff_lt_mul step]
    omega
  · rw [Nat.le_div_iff_mul_le step]
    omega
  · exact roundedMantissa_quotient step (by omega) (by omega) (fun _ => rfl)

/-- A quotient in the interval around a float is rounded to that float. -/
theorem read_rounded_of_holds {numerator denominator significand scale target : Nat} {sign : Sign}
    (positive : 0 < denominator) (bound : significand < 2 ^ 53)
    (normal : 0 < scale → 2 ^ 52 ≤ significand) (inRange : scale ≤ 2045)
    (held : (Decimal.Interval.around significand scale).holds denominator 4 numerator = true)
    (atTarget : AtScale numerator denominator target) :
    read (.ofModel (.pack (rounded sign
        (quotient numerator (2 ^ target * denominator)).roundedMantissa target))) =
      .finite (sign == .negative) significand scale := by
  have near := near_of_holds held
  by_cases justBelow : significand = 2 ^ 52 ∧ 0 < scale ∧
      numerator < significand * (2 ^ scale * denominator)
  · obtain ⟨rfl, scaled, less⟩ := justBelow
    obtain ⟨finer, rfl⟩ : ∃ finer, scale = finer + 1 := ⟨scale - 1, by omega⟩
    obtain ⟨atFiner, carried⟩ :=
      carries_of_near (Nat.mul_pos (Nat.two_pow_pos _) positive) near less
    obtain rfl := atTarget.unique atFiner
    rw [carried]
    exact read_rounded_two_pow (by omega)
  · have step : 0 < 2 ^ scale * denominator := Nat.mul_pos (Nat.two_pow_pos _) positive
    have atScale : AtScale numerator denominator scale :=
      .of_near step bound normal near fun power scaled =>
        Nat.le_of_not_lt fun less => justBelow ⟨power, scaled, less⟩
    obtain rfl := atTarget.unique atScale
    rw [roundedMantissa_quotient step near.above near.below near.tie]
    exact read_rounded bound normal inRange

end ExprMachine.Binary64
