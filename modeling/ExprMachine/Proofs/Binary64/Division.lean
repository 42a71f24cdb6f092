/-
  ExprMachine.Proofs.Binary64.Division

  Division of floats is the rounded quotient of what they stand for, and so a decimal in
  the interval around a float is read as that float.
-/
import ExprMachine.Proofs.Binary64.Rounding

namespace ExprMachine.Binary64

open Float.Model (UnpackedFloat Format totalExponent)
open Float.Model.UnpackedFloat

-- ============================================================================
-- Quotients of floats
-- ============================================================================

/-- The exponent that the quotient of two floats starts from is a scale too. It is no finer
    than that of the dividend allows, and fine enough for all bits of the quotient unless it
    is the finest. -/
theorem exists_start (mantissa₁ scale₁ mantissa₂ : Nat) {scale₂ : Nat}
    (fine : scale₂ ≤ scale₁ + 1074) :
    ∃ start : Nat,
      min ((scale₁ : Int) - 1074 - (scale₂ - 1074))
        (Format.binary64.targetExponent (totalExponent mantissa₁ (scale₁ - 1074) -
          totalExponent mantissa₂ (scale₂ - 1074))) = (start : Int) - 1074 ∧
      scale₂ + start ≤ scale₁ + 1074 ∧
      (start = 0 ∨ start + mantissa₂.log2 + scale₂ ≤ mantissa₁.log2 + scale₁ + 1021) := by
  change ∃ start : Nat, min _ (max (_ - 53) (-1074)) = _ ∧ _
  unfold totalExponent
  refine ⟨(min ((scale₁ : Int) - scale₂)
    (max (mantissa₁.log2 + scale₁ - mantissa₂.log2 - scale₂ - 53) (-1074)) + 1074).toNat, ?_⟩
  omega

/-- A dividend with 53 bits more than the divisor has a quotient of at least 53 bits. -/
theorem le_log2_div {dividend divisor : Nat} (positive : 0 < divisor) {shift bits : Nat}
    (some : 0 < dividend) (enough : bits + divisor.log2 < dividend.log2 + shift) :
    bits ≤ (dividend * 2 ^ shift / divisor).log2 := by
  have large : 2 ^ bits * divisor ≤ dividend * 2 ^ shift :=
    calc 2 ^ bits * divisor
      _ ≤ 2 ^ bits * 2 ^ (divisor.log2 + 1) :=
        Nat.mul_le_mul_left _ (Nat.le_of_lt Nat.lt_log2_self)
      _ = 2 ^ (bits + (divisor.log2 + 1)) := (Nat.pow_add ..).symm
      _ ≤ 2 ^ (dividend.log2 + shift) := Nat.pow_le_pow_right (by decide) enough
      _ = 2 ^ dividend.log2 * 2 ^ shift := Nat.pow_add ..
      _ ≤ dividend * 2 ^ shift := Nat.mul_le_mul_right _ (Nat.log2_self_le (by omega))
  have whole := (Nat.le_div_iff_mul_le positive).2 large
  have := Nat.two_pow_pos bits
  exact (Nat.le_log2 (by omega)).2 whole

/-- The division of finite floats is the rounded quotient of what they stand for. Here the
    divisor is not so coarse that the quotient is finer than all floats. -/
theorem div_fine (sign₁ sign₂ : Sign) {mantissa₁ mantissa₂ scale₁ scale₂ : Nat}
    (positive₁ : 0 < mantissa₁) (positive₂ : 0 < mantissa₂) {numerator denominator : Nat}
    (positive : 0 < denominator) (fine : scale₂ ≤ scale₁ + 1074)
    (ratio : mantissa₁ * 2 ^ scale₁ * unitsPerOne * denominator =
      numerator * (mantissa₂ * 2 ^ scale₂)) :
    ∃ target, AtScale numerator denominator target ∧
      div Format.binary64 (.finite sign₁ mantissa₁ (scale₁ - 1074) positive₁)
          (.finite sign₂ mantissa₂ (scale₂ - 1074) positive₂) =
        rounded (sign₁ / sign₂)
          (quotient numerator (2 ^ target * denominator)).roundedMantissa target := by
  obtain ⟨start, hstart, coarsest, bits⟩ := exists_start mantissa₁ scale₁ mantissa₂ fine
  obtain ⟨shift, hshift⟩ : ∃ shift, scale₁ + 1074 = scale₂ + start + shift :=
    ⟨scale₁ + 1074 - (scale₂ + start), by omega⟩
  have amount : ((scale₁ : Int) - 1074 - (scale₂ - 1074) - (start - 1074)).toNat = shift := by
    omega
  rw [div, divCore]
  simp only [hstart, amount, Nat.shiftLeft_eq]
  refine roundWithAccuracy_quotient positive ?_ ?_
  · rw [← quotient_eq_fraction _ positive₂]
    refine quotient_congr positive₂ (Nat.mul_pos (Nat.two_pow_pos _) positive) ?_
    refine Nat.eq_of_mul_eq_mul_left (Nat.two_pow_pos scale₂) ?_
    calc 2 ^ scale₂ * (mantissa₁ * 2 ^ shift * (2 ^ start * denominator))
      _ = mantissa₁ * 2 ^ (scale₂ + start + shift) * denominator := by
        rw [Nat.pow_add, Nat.pow_add]; ac_rfl
      _ = mantissa₁ * 2 ^ scale₁ * unitsPerOne * denominator := by
        rw [← hshift, two_pow_add_units, ← Nat.mul_assoc mantissa₁]
      _ = 2 ^ scale₂ * (numerator * mantissa₂) := by
        rw [ratio]; ac_rfl
  · rcases bits with bits | bits
    · exact .inr bits
    · exact .inl (le_log2_div positive₂ positive₁ (by omega))

/-- A float that is divided by one much coarser starts below the finest scale. -/
theorem div_coarse (sign₁ sign₂ : Sign) {mantissa₁ mantissa₂ scale₁ scale₂ : Nat}
    (positive₁ : 0 < mantissa₁) (positive₂ : 0 < mantissa₂) {numerator denominator : Nat}
    (positive : 0 < denominator) (coarse : scale₁ + 1074 ≤ scale₂)
    (ratio : mantissa₁ * 2 ^ scale₁ * unitsPerOne * denominator =
      numerator * (mantissa₂ * 2 ^ scale₂)) :
    ∃ target, AtScale numerator denominator target ∧
      div Format.binary64 (.finite sign₁ mantissa₁ (scale₁ - 1074) positive₁)
          (.finite sign₂ mantissa₂ (scale₂ - 1074) positive₂) =
        rounded (sign₁ / sign₂)
          (quotient numerator (2 ^ target * denominator)).roundedMantissa target := by
  obtain ⟨shift, rfl⟩ := Nat.exists_eq_add_of_le coarse
  -- What the divisor has more than all units is taken off the dividend's bits.
  have divided : mantissa₁ * denominator = 2 ^ shift * numerator * mantissa₂ := by
    refine Nat.eq_of_mul_eq_mul_right
      (Nat.mul_pos (Nat.two_pow_pos scale₁) unitsPerOne_pos) ?_
    rw [Nat.pow_add, two_pow_add_units] at ratio
    generalize unitsPerOne = units at ratio
    calc mantissa₁ * denominator * (2 ^ scale₁ * units)
      _ = mantissa₁ * 2 ^ scale₁ * units * denominator := by ac_rfl
      _ = 2 ^ shift * numerator * mantissa₂ * (2 ^ scale₁ * units) := by rw [ratio]; ac_rfl
  have start : min ((scale₁ : Int) - 1074 - ((scale₁ + 1074 + shift : Nat) - 1074))
      (Format.binary64.targetExponent (totalExponent mantissa₁ (scale₁ - 1074) -
        totalExponent mantissa₂ ((scale₁ + 1074 + shift : Nat) - 1074))) = -(shift : Int) - 1074 := by
    change min _ (max _ (-1074)) = _
    omega
  have amount : ((scale₁ : Int) - 1074 - ((scale₁ + 1074 + shift : Nat) - 1074) -
      (-(shift : Int) - 1074)).toNat = 0 := by omega
  rw [div, divCore]
  simp only [start, amount, Nat.shiftLeft_zero]
  refine roundWithAccuracy_finer positive ?_
  rw [← quotient_eq_fraction _ positive₂]
  exact quotient_congr positive₂ positive divided

/-- The division of finite floats is the rounded quotient of what they stand for. -/
theorem div_finite (sign₁ sign₂ : Sign) {mantissa₁ mantissa₂ scale₁ scale₂ : Nat}
    (positive₁ : 0 < mantissa₁) (positive₂ : 0 < mantissa₂) {numerator denominator : Nat}
    (positive : 0 < denominator)
    (ratio : mantissa₁ * 2 ^ scale₁ * unitsPerOne * denominator =
      numerator * (mantissa₂ * 2 ^ scale₂)) :
    ∃ target, AtScale numerator denominator target ∧
      div Format.binary64 (.finite sign₁ mantissa₁ (scale₁ - 1074) positive₁)
          (.finite sign₂ mantissa₂ (scale₂ - 1074) positive₂) =
        rounded (sign₁ / sign₂)
          (quotient numerator (2 ^ target * denominator)).roundedMantissa target := by
  rcases Nat.le_total scale₂ (scale₁ + 1074) with fine | coarse
  · exact div_fine sign₁ sign₂ positive₁ positive₂ positive fine ratio
  · exact div_coarse sign₁ sign₂ positive₁ positive₂ positive coarse ratio

-- ============================================================================
-- Whole numbers and powers of ten
-- ============================================================================

theorem roundWithAccuracy_exact {sign : Sign} {mantissa : Nat} (bound : mantissa < 2 ^ 53)
    (scale : Nat) :
    roundWithAccuracy Format.binary64 sign mantissa (scale - 1074) .exact =
      rounded sign mantissa scale := by
  rw [roundWithAccuracy, shiftToTargetExponent_of_lt bound]
  have whole : (ExtendedMantissa.ofMantissaAndAccuracy mantissa .exact).roundedMantissa =
      mantissa := rfl
  simp only [whole, shiftToTargetExponent_of_lt bound]
  rw [rounded, if_neg (by omega)]
  rfl

/-- Whole numbers of at most 53 bits are floats. -/
theorem read_toFloat {number : Nat} (positive : 0 < number) (bound : number < 2 ^ 53) :
    ∃ significand scale, read number.toUInt64.toFloat = .finite false significand scale ∧
      significand * 2 ^ scale = number * unitsPerOne ∧ 0 < significand ∧ 1022 ≤ scale := by
  have small := log2_le_of_lt bound
  have whole : number.toUInt64.toNat = number := by
    rw [Nat.toUInt64_eq, UInt64.toNat_ofNat']
    omega
  obtain ⟨shift, hshift⟩ : ∃ shift, number.log2 + shift = 52 := ⟨52 - number.log2, by omega⟩
  have amount : ((0 : Int) - Format.binary64.targetExponent (totalExponent number 0)).toNat =
      shift := by
    have := targetExponent_eq number 1074
    change Format.binary64.targetExponent (totalExponent number 0) = _ at this
    rw [this]
    omega
  have large : 2 ^ 52 ≤ number * 2 ^ shift := by
    rw [← hshift, Nat.pow_add]
    exact Nat.mul_le_mul_right _ (Nat.log2_self_le (by omega))
  have fits : number * 2 ^ shift < 2 ^ 53 := by
    rw [show 53 = number.log2 + 1 + shift by omega, Nat.pow_add]
    exact Nat.mul_lt_mul_of_pos_right Nat.lt_log2_self (Nat.two_pow_pos _)
  refine ⟨number * 2 ^ shift, 1074 - shift, ?_, ?_, by omega, by omega⟩
  · have unpacked : ofUInt64 Format.binary64 number.toUInt64 =
        rounded .positive (number * 2 ^ shift) (1074 - shift) := by
      rw [ofUInt64, UnpackedFloat.ofNat, UnpackedFloat.ofInt, UnpackedFloat.normalize,
        whole, Int.compare_eq_gt.2 (by omega)]
      simp only [UnpackedFloat.round, Int.toNat_natCast, decreaseExponent, amount, Nat.shiftLeft_eq]
      rw [show (0 : Int) - shift = ((1074 - shift : Nat) : Int) - 1074 by omega]
      exact roundWithAccuracy_exact fits _
    rw [UInt64.toFloat, Float.Model.ofUInt64, unpacked]
    exact read_rounded fits (fun _ => large) (by omega)
  · rw [Nat.mul_assoc, ← Nat.pow_add, Nat.add_sub_of_le (by omega), unitsPerOne]

/-- A finite float that is above zero unpacks to what it stands for. -/
theorem unpack_of_read {x : Float} {significand scale : Nat}
    (h : read x = .finite false significand scale) (positive : 0 < significand) :
    x.toModel.unpack = .finite .positive significand (scale - 1074) positive := by
  rw [read_eq_ofUnpacked] at h
  match hunpack : x.toModel.unpack with
  | .notANumber | .infinity _ | .zero .negative | .finite .negative _ _ _ =>
    rw [hunpack] at h
    cases h
  | .zero .positive =>
    rw [hunpack] at h
    cases h
    cases positive
  | .finite .positive mantissa exponent _ =>
    have fine := exponent_of_unpack hunpack
    rw [hunpack] at h
    cases h
    congr 1
    omega

/-- The powers of ten in the table are exact. -/
theorem read_powerOfTen (exponent : Fin Float.exactlyRepresentablePowersOfTen.size) :
    ∃ significand scale,
      read Float.exactlyRepresentablePowersOfTen[exponent] = .finite false significand scale ∧
        significand * 2 ^ scale = 10 ^ exponent.val * unitsPerOne ∧ 0 < significand := by
  have table : ∀ exponent : Fin Float.exactlyRepresentablePowersOfTen.size,
      (read Float.exactlyRepresentablePowersOfTen[exponent]).passes fun significand scale =>
        decide (significand * 2 ^ scale = 10 ^ exponent.val * unitsPerOne ∧ 0 < significand) := by
    decide +kernel
  obtain ⟨significand, scale, hread, entry⟩ := Reading.exists_of_passes (table exponent)
  exact ⟨significand, scale, hread, of_decide_eq_true entry⟩

-- ============================================================================
-- Decimals
-- ============================================================================

/-- A decimal in the interval around a float that is not zero is not too small for a float. -/
theorem exponent_le_of_near {digits exponent significand scale : Nat} (positive : 0 < significand)
    (near : Near (digits * unitsPerOne) (10 ^ exponent) significand scale) :
    exponent ≤ 2 ^ 11 + digits.log2 := by
  have above := near.above
  rw [Nat.mul_assoc] at above
  have smallest : 10 ^ exponent ≤ 2 ^ scale * 10 ^ exponent :=
    Nat.le_mul_of_pos_left _ (Nat.two_pow_pos _)
  have value := Nat.mul_le_mul_right (2 ^ scale * 10 ^ exponent) positive
  have powers : 2 ^ (3 * exponent) < 2 ^ (digits.log2 + 1 + 1075) :=
    calc 2 ^ (3 * exponent)
      _ = 8 ^ exponent := Nat.pow_mul ..
      _ ≤ 10 ^ exponent := Nat.pow_le_pow_left (by decide) _
      _ ≤ digits * unitsPerOne * 2 := by omega
      _ < 2 ^ (digits.log2 + 1) * unitsPerOne * 2 :=
        Nat.mul_lt_mul_of_pos_right
          (Nat.mul_lt_mul_of_pos_right Nat.lt_log2_self unitsPerOne_pos) (by decide)
      _ = 2 ^ (digits.log2 + 1 + 1075) := by
        rw [← two_pow_add_units, ← Nat.pow_succ]
  have := (Nat.pow_lt_pow_iff_right (by decide)).1 powers
  omega

/-- A decimal with a point that is not too small is rounded from its exact value, whether it
    is the quotient of two floats or is divided first. -/
theorem exists_rounded_ofScientific_point {digits exponent : Nat} (some : 0 < digits)
    (point : 0 < exponent) (notTooSmall : exponent ≤ 2 ^ 11 + digits.log2) :
    ∃ target, AtScale (digits * unitsPerOne) (10 ^ exponent) target ∧
      Float.ofScientific digits true exponent = .ofModel (.pack (rounded .positive
        (quotient (digits * unitsPerOne) (2 ^ target * 10 ^ exponent)).roundedMantissa
          target)) := by
  have divisor : 0 < 10 ^ exponent := Nat.pow_pos (by decide)
  unfold Float.ofScientific
  split
  -- Few digits and a small power of ten are floats themselves, which are divided.
  · rename_i small
    obtain ⟨significand₁, scale₁, first, value₁, positive₁, -⟩ := read_toFloat some small.1
    obtain ⟨significand₂, scale₂, second, value₂, positive₂⟩ :=
      read_powerOfTen ⟨exponent, Nat.lt_succ_of_le small.2⟩
    have ratio : significand₁ * 2 ^ scale₁ * unitsPerOne * 10 ^ exponent =
        digits * unitsPerOne * (significand₂ * 2 ^ scale₂) := by
      rw [value₁, value₂]
      generalize unitsPerOne = one
      simp only [Nat.mul_assoc, Nat.mul_comm, Nat.mul_left_comm]
    obtain ⟨target, atTarget, hdiv⟩ :=
      div_finite .positive .positive positive₁ positive₂ divisor ratio
    refine ⟨target, atTarget, congrArg (fun quotient => Float.ofModel (.pack quotient)) ?_⟩
    exact (congrArg₂ (div Format.binary64) (unpack_of_read first positive₁)
      (unpack_of_read second positive₂)).trans hdiv
  -- All others are divided before they are rounded.
  · have ratio : digits * 2 ^ 1074 * unitsPerOne * 10 ^ exponent =
        digits * unitsPerOne * (10 ^ exponent * 2 ^ 1074) := by
      rw [← unitsPerOne]
      generalize unitsPerOne = units
      ac_rfl
    obtain ⟨target, atTarget, hdiv⟩ :=
      div_fine .positive .positive some divisor divisor (Nat.le_add_right 1074 1074) ratio
    refine ⟨target, atTarget, congrArg (fun quotient => Float.ofModel (.pack quotient)) ?_⟩
    change UnpackedFloat.ofScientific _ digits (Int.negOfNat exponent) = _
    rw [show Int.negOfNat exponent = -(exponent : Int) from Int.negOfNat_eq,
      UnpackedFloat.ofScientific, dif_neg (by omega), if_neg, if_neg, if_neg (by omega)]
    · simp only [Int.neg_neg, Int.toNat_natCast]
      exact hdiv
    · change ¬ -(exponent : Int) < -(2 ^ 11 + digits.log2)
      omega
    · change ¬ -(exponent : Int) > 2 ^ 11
      omega

/-- A decimal in the interval around a float is read as that float. -/
theorem read_ofScientific_of_holds {digits exponent significand scale : Nat} (some : 0 < digits)
    (point : 0 < exponent) (positive : 0 < significand) (bound : significand < 2 ^ 53)
    (normal : 0 < scale → 2 ^ 52 ≤ significand) (inRange : scale ≤ 2045)
    (held : (Decimal.Interval.around significand scale).holds (10 ^ exponent) 4
      (digits * unitsPerOne) = true) :
    read (Float.ofScientific digits true exponent) = .finite false significand scale := by
  obtain ⟨target, atTarget, hfloat⟩ := exists_rounded_ofScientific_point some point
    (exponent_le_of_near positive (near_of_holds held))
  rw [hfloat]
  exact read_rounded_of_holds (Nat.pow_pos (by decide)) bound normal inRange held atTarget

end ExprMachine.Binary64
