/-
  ExprMachine.Proofs.Binary64.Positive

  Arithmetic on floats without a minus sign stays there, unless it is zero times infinity.
  A quotient is rounded to a float of about its size, so that dividing by a number of at
  least two never leaves the range of the dividend.
-/
import ExprMachine.Proofs.Binary64.Division

namespace ExprMachine.Binary64

open Float.Model (UnpackedFloat Format)
open Float.Model.UnpackedFloat

-- ============================================================================
-- Packing and rounding
-- ============================================================================

/-- Whether an unpacked float is a number and has no minus sign. -/
def isPositiveUnpacked (unpacked : UnpackedFloat) : Bool :=
  (Reading.ofUnpacked unpacked).isPositive

theorem isPositive_packComponents {exponent : BitVec 11} (h : exponent.toNat ≠ 2047)
    (fraction : BitVec 52) :
    (readBits (packComponents Format.binary64 .positive exponent fraction).toNat).isPositive =
      true := by
  rw [readBits_packComponents, if_neg h]
  split <;> rfl

theorem isPositive_pack {unpacked : UnpackedFloat} (h : isPositiveUnpacked unpacked = true) :
    isPositive (.ofModel (.pack unpacked)) = true := by
  rw [isPositive, read_ofModel_pack]
  cases unpacked with
  | notANumber => cases h
  | infinity sign | zero sign =>
    cases sign with
    | negative => cases h
    | positive => decide
  | finite sign mantissa exponent positive =>
    cases sign with
    | negative => cases h
    | positive =>
      simp only [pack]
      split
      · decide
      split
      · rename_i inRange _
        refine isPositive_packComponents ?_ _
        rw [BitVec.toNat_ofNat]
        change ¬ 2 ^ 11 ≤ _ at inRange
        omega
      · exact isPositive_packComponents (by decide) _

theorem isPositive_roundWithAccuracy (mantissa : Nat) (exponent : Int) (accuracy : Accuracy) :
    isPositiveUnpacked (roundWithAccuracy Format.binary64 .positive mantissa exponent accuracy) =
      true := by
  rw [roundWithAccuracy]
  simp only
  split <;> rfl

-- ============================================================================
-- Operations
-- ============================================================================

/-- A finite float without a minus sign unpacks to zero or to a finite number. -/
theorem cases_of_read {x : Float} {significand scale : Nat}
    (h : read x = .finite false significand scale) :
    x.toModel.unpack = .zero .positive ∨
      ∃ mantissa exponent positive,
        x.toModel.unpack = .finite .positive mantissa exponent positive := by
  rw [read_eq_ofUnpacked] at h
  match hunpack : x.toModel.unpack with
  | .notANumber | .infinity _ | .zero .negative | .finite .negative _ _ _ =>
    rw [hunpack] at h
    cases h
  | .zero .positive => exact .inl rfl
  | .finite .positive mantissa exponent positive =>
    exact .inr ⟨mantissa, exponent, positive, rfl⟩

theorem isPositive_mul {x y : Float} {significand scale significand' scale' : Nat}
    (hx : read x = .finite false significand scale)
    (hy : read y = .finite false significand' scale') : isPositive (x * y) = true := by
  change isPositive (.ofModel (.pack (mul _ x.toModel.unpack y.toModel.unpack))) = true
  refine isPositive_pack ?_
  rcases cases_of_read hx with hx | ⟨_, _, _, hx⟩ <;>
    rcases cases_of_read hy with hy | ⟨_, _, _, hy⟩ <;> rw [hx, hy]
  · rfl
  · rfl
  · rfl
  · exact isPositive_roundWithAccuracy ..

theorem isPositive_div {x y : Float} {significand scale significand' scale' : Nat}
    (hx : read x = .finite false significand scale)
    (hy : read y = .finite false significand' scale') (positive : 0 < significand') :
    isPositive (x / y) = true := by
  change isPositive (.ofModel (.pack (div _ x.toModel.unpack y.toModel.unpack))) = true
  refine isPositive_pack ?_
  rcases cases_of_read hx with hx | ⟨_, _, _, hx⟩ <;> rw [hx, unpack_of_read hy positive]
  · rfl
  · exact isPositive_roundWithAccuracy ..

theorem isPositive_ofScientificUnpacked (digits : Nat) (exponent : Int) :
    isPositiveUnpacked (UnpackedFloat.ofScientific Format.binary64 digits exponent) = true := by
  rw [UnpackedFloat.ofScientific]
  split
  · rfl
  split
  · rfl
  split
  · rfl
  split
  · exact isPositive_roundWithAccuracy ..
  · exact isPositive_roundWithAccuracy ..

/-- A decimal is read as a float without a minus sign. -/
theorem isPositive_ofScientific (digits : Nat) (small : Bool) (exponent : Nat) :
    isPositive (Float.ofScientific digits small exponent) = true := by
  unfold Float.ofScientific
  split
  · rename_i fits
    obtain ⟨significand, scale, hpower, -, positive⟩ :=
      read_powerOfTen ⟨exponent, Nat.lt_succ_of_le fits.2⟩
    obtain ⟨_, _, hdigits⟩ : ∃ significand scale,
        read digits.toUInt64.toFloat = .finite false significand scale := by
      rcases Nat.eq_zero_or_pos digits with rfl | some
      · exact ⟨0, 0, by decide +kernel⟩
      · obtain ⟨_, _, hread, -⟩ := read_toFloat some fits.1
        exact ⟨_, _, hread⟩
    split
    · exact isPositive_div hdigits hpower positive
    · exact isPositive_mul hdigits hpower
  · exact isPositive_pack (isPositive_ofScientificUnpacked ..)

-- ============================================================================
-- Bounded quotients
-- ============================================================================

/-- A quotient that is not too large is rounded at a scale of finite floats. -/
theorem AtScale.lt_of_lt {numerator denominator scale : Nat}
    (atScale : AtScale numerator denominator scale) (bound : numerator < 2 ^ 2097 * denominator) :
    scale < 2045 := by
  rcases Nat.eq_zero_or_pos scale with rfl | coarse
  · decide
  have positive : 0 < denominator := Nat.pos_of_mul_pos_left (Nat.zero_lt_of_lt bound)
  have bits : 2 ^ 52 * (2 ^ scale * denominator) ≤ numerator :=
    (Nat.le_div_iff_mul_le (Nat.mul_pos (Nat.two_pow_pos _) positive)).1 (atScale.normal coarse)
  have powers : 2 ^ (52 + scale) < 2 ^ 2097 := by
    refine Nat.lt_of_mul_lt_mul_right (a := denominator) ?_
    rw [Nat.pow_add, Nat.mul_assoc]
    exact Nat.lt_of_le_of_lt bits bound
  have := (Nat.pow_lt_pow_iff_right (by decide)).1 powers
  omega

section Rounded

variable {numerator denominator target : Nat} (positive : 0 < denominator)
  (atTarget : AtScale numerator denominator target)
include positive atTarget

/-- A rounded quotient stands for its whole number of steps. -/
theorem read_rounded_quotient (inRange : target < 2045) :
    ∃ significand scale, read (.ofModel (.pack (rounded .positive
        (quotient numerator (2 ^ target * denominator)).roundedMantissa target))) =
          .finite false significand scale ∧
      significand * 2 ^ scale =
        (quotient numerator (2 ^ target * denominator)).roundedMantissa * 2 ^ target := by
  obtain ⟨least, most⟩ := roundedMantissa_bounds numerator
    (Nat.mul_pos (Nat.two_pow_pos target) positive)
  obtain ⟨bound, normal⟩ := atTarget
  generalize (quotient _ _).roundedMantissa = whole at *
  rcases Nat.lt_or_eq_of_le (Nat.le_trans most bound) with less | rfl
  · have normal : 0 < target → 2 ^ 52 ≤ whole := fun coarse => Nat.le_trans (normal coarse) least
    exact ⟨whole, target, read_rounded less normal (by omega), rfl⟩
  · exact ⟨2 ^ 52, target + 1, read_rounded_two_pow inRange, by omega⟩

/-- Rounding does not go beyond twice a quotient. -/
theorem rounded_le {limit : Nat} (large : 2 ^ 53 ≤ limit)
    (half : 2 * numerator ≤ denominator * limit) :
    (quotient numerator (2 ^ target * denominator)).roundedMantissa * 2 ^ target ≤ limit := by
  obtain ⟨-, most⟩ := roundedMantissa_bounds numerator
    (Nat.mul_pos (Nat.two_pow_pos target) positive)
  have part := Nat.div_mul_le_self numerator (2 ^ target * denominator)
  obtain ⟨bound, normal⟩ := atTarget
  generalize (quotient _ _).roundedMantissa = whole at *
  generalize numerator / _ = floor at *
  rcases Nat.eq_zero_or_pos target with rfl | coarse
  · rw [Nat.pow_zero, Nat.mul_one]
    omega
  have small : 2 * floor * 2 ^ target ≤ limit := by
    refine Nat.le_of_mul_le_mul_right ?_ positive
    calc 2 * floor * 2 ^ target * denominator
      _ = 2 * (floor * (2 ^ target * denominator)) := by ac_rfl
      _ ≤ 2 * numerator := Nat.mul_le_mul_left _ part
      _ ≤ limit * denominator := by rw [Nat.mul_comm limit]; exact half
  have := normal coarse
  exact Nat.le_trans (Nat.mul_le_mul_right _ (by omega)) small

/-- Rounding keeps at least half of a quotient that is not below one unit. -/
theorem le_rounded (unit : denominator ≤ numerator) :
    numerator ≤
      2 * ((quotient numerator (2 ^ target * denominator)).roundedMantissa * 2 ^ target) *
        denominator := by
  have step := Nat.mul_pos (Nat.two_pow_pos target) positive
  obtain ⟨least, -⟩ := roundedMantissa_bounds numerator step
  have above := Nat.lt_mul_div_succ numerator step
  obtain ⟨-, normal⟩ := atTarget
  have some : 1 ≤ numerator / (2 ^ target * denominator) := by
    rcases Nat.eq_zero_or_pos target with rfl | coarse
    · rw [Nat.pow_zero, Nat.one_mul]
      exact (Nat.le_div_iff_mul_le positive).2 (by rw [Nat.one_mul]; exact unit)
    · exact Nat.le_trans (by decide) (normal coarse)
  generalize (quotient _ _).roundedMantissa = whole at *
  generalize numerator / _ = floor at *
  calc numerator
    _ ≤ 2 ^ target * denominator * (floor + 1) := Nat.le_of_lt above
    _ ≤ 2 ^ target * denominator * (2 * whole) := Nat.mul_le_mul_left _ (by omega)
    _ = 2 * (whole * 2 ^ target) * denominator := by ac_rfl

end Rounded

section Bounded

variable {limit : Nat} (large : 2 ^ 53 ≤ limit) (inRange : limit < 2 * 2 ^ 2097)
include large inRange

/-- A quotient of at most half a limit is rounded to a float of at most the limit. -/
theorem read_rounded_le {numerator denominator target : Nat} (positive : 0 < denominator)
    (half : 2 * numerator ≤ denominator * limit)
    (atTarget : AtScale numerator denominator target) :
    ∃ significand scale, read (.ofModel (.pack (rounded .positive
        (quotient numerator (2 ^ target * denominator)).roundedMantissa target))) =
          .finite false significand scale ∧
      significand * 2 ^ scale =
        (quotient numerator (2 ^ target * denominator)).roundedMantissa * 2 ^ target ∧
      significand * 2 ^ scale ≤ limit := by
  have bound : numerator < 2 ^ 2097 * denominator := by
    refine Nat.lt_of_mul_lt_mul_left (a := 2) ?_
    calc 2 * numerator
      _ ≤ denominator * limit := half
      _ < denominator * (2 * 2 ^ 2097) := Nat.mul_lt_mul_of_pos_left inRange positive
      _ = 2 * (2 ^ 2097 * denominator) := by
        generalize 2 ^ 2097 = highest
        ac_rfl
  obtain ⟨significand, scale, hread, value⟩ :=
    read_rounded_quotient positive atTarget (atTarget.lt_of_lt bound)
  exact ⟨significand, scale, hread, value, value ▸ rounded_le positive atTarget large half⟩

end Bounded

end ExprMachine.Binary64
