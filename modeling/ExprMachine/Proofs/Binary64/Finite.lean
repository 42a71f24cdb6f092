/-
  ExprMachine.Proofs.Binary64.Finite

  Which floats are finite: every integer that 64 bits hold becomes a finite float, and
  what is read from a decimal in a document is finite, since products are checked and
  quotients stay within the dividend.
-/
import ExprMachine.Proofs.Binary64.Positive

namespace ExprMachine.Binary64

open Float.Model (UnpackedFloat Format totalExponent)
open Float.Model.UnpackedFloat

theorem isFinite_iff {x : Float} :
    isFinite x = true ↔
      ∃ negative significand scale, read x = .finite negative significand scale := by
  unfold isFinite
  cases read x with
  | finite negative significand scale => exact iff_of_true rfl ⟨_, _, _, rfl⟩
  | infinite negative => exact iff_of_false Bool.false_ne_true nofun
  | notANumber => exact iff_of_false Bool.false_ne_true nofun

theorem isFinite_of_read {x : Float} {negative : Bool} {significand scale : Nat}
    (h : read x = .finite negative significand scale) : isFinite x = true :=
  isFinite_iff.2 ⟨negative, significand, scale, h⟩

-- ============================================================================
-- Products
-- ============================================================================

/-- The product of finite floats is the rounded product of what they stand for, when the
    product has all bits of a float. -/
theorem mul_finite (sign₁ sign₂ : Sign) {mantissa₁ mantissa₂ scale₁ scale₂ : Nat}
    (positive₁ : 0 < mantissa₁) (positive₂ : 0 < mantissa₂)
    (bits : 2 ^ 52 ≤ mantissa₁ * mantissa₂) {numerator : Nat}
    (product : numerator = mantissa₁ * 2 ^ scale₁ * (mantissa₂ * 2 ^ scale₂)) :
    ∃ target, AtScale numerator unitsPerOne target ∧
      mul Format.binary64 (.finite sign₁ mantissa₁ (scale₁ - 1074) positive₁)
          (.finite sign₂ mantissa₂ (scale₂ - 1074) positive₂) =
        rounded (sign₁ * sign₂)
          (quotient numerator (2 ^ target * unitsPerOne)).roundedMantissa target := by
  have product : numerator = mantissa₁ * mantissa₂ * 2 ^ (scale₁ + scale₂) := by
    rw [product, Nat.pow_add]
    ac_rfl
  rw [mul]
  rcases Nat.le_total 1074 (scale₁ + scale₂) with fine | finer
  · obtain ⟨start, hstart⟩ := Nat.exists_eq_add_of_le' fine
    have exponent : (scale₁ : Int) - 1074 + (scale₂ - 1074) = (start : Int) - 1074 := by omega
    rw [exponent]
    refine roundWithAccuracy_quotient unitsPerOne_pos ?_ (.inl ((Nat.le_log2 (by omega)).2 bits))
    rw [product, hstart, two_pow_add_units]
    exact (quotient_exact _ (Nat.mul_pos (Nat.two_pow_pos _) unitsPerOne_pos)).symm
  · obtain ⟨missing, hmissing⟩ := Nat.exists_eq_add_of_le' finer
    have exponent : (scale₁ : Int) - 1074 + (scale₂ - 1074) = -(missing : Int) - 1074 := by omega
    rw [exponent]
    refine roundWithAccuracy_finer unitsPerOne_pos ?_
    rw [product, ← quotient_exact _ unitsPerOne_pos, unitsPerOne, hmissing, Nat.pow_add]
    congr 1
    ac_rfl

-- ============================================================================
-- Whole numbers
-- ============================================================================

/-- A whole number times a power of ten is rounded from its exact value, whether it is the
    product of two floats or is multiplied out first. -/
theorem exists_rounded_ofScientific {number exponent : Nat} (positive : 0 < number)
    (most : exponent ≤ 1023) :
    ∃ target, AtScale (number * 10 ^ exponent * unitsPerOne * unitsPerOne) unitsPerOne target ∧
      Float.ofScientific number false exponent = .ofModel (.pack (rounded .positive
        (quotient (number * 10 ^ exponent * unitsPerOne * unitsPerOne)
          (2 ^ target * unitsPerOne)).roundedMantissa target)) := by
  have power : 0 < 10 ^ exponent := Nat.pow_pos (by decide)
  unfold Float.ofScientific
  split
  · rename_i small
    obtain ⟨significand₁, scale₁, first, value₁, positive₁, fine₁⟩ :=
      read_toFloat positive small.1
    obtain ⟨significand₂, scale₂, second, value₂, positive₂⟩ :=
      read_powerOfTen ⟨exponent, Nat.lt_succ_of_le small.2⟩
    have bits : 2 ^ 52 ≤ significand₁ * significand₂ :=
      Nat.le_trans ((bounds_of_read first).2.1 (by omega)) (Nat.le_mul_of_pos_right _ positive₂)
    have product : number * 10 ^ exponent * unitsPerOne * unitsPerOne =
        significand₁ * 2 ^ scale₁ * (significand₂ * 2 ^ scale₂) := by
      rw [value₁, value₂]
      generalize unitsPerOne = units
      ac_rfl
    obtain ⟨target, atTarget, hmul⟩ :=
      mul_finite .positive .positive positive₁ positive₂ bits product
    refine ⟨target, atTarget, congrArg (fun product => Float.ofModel (.pack product)) ?_⟩
    exact (congrArg₂ (mul Format.binary64) (unpack_of_read first positive₁)
      (unpack_of_read second positive₂)).trans hmul
  · have shifted : 0 < number <<< 53 := by rw [Nat.shiftLeft_eq]; omega
    have bits : 2 ^ 52 ≤ number <<< 53 * 10 ^ exponent :=
      Nat.le_trans (by rw [Nat.shiftLeft_eq]; omega) (Nat.le_mul_of_pos_right _ power)
    have unit : 2 ^ 53 * 2 ^ 1021 = unitsPerOne := by decide +kernel
    have product : number * 10 ^ exponent * unitsPerOne * unitsPerOne =
        number <<< 53 * 2 ^ 1021 * (10 ^ exponent * 2 ^ 1074) := by
      rw [Nat.shiftLeft_eq, Nat.mul_assoc number (2 ^ 53), unit, ← unitsPerOne]
      generalize unitsPerOne = units
      ac_rfl
    obtain ⟨target, atTarget, hmul⟩ :=
      mul_finite .positive .positive shifted power bits product
    refine ⟨target, atTarget, congrArg (fun product => Float.ofModel (.pack product)) ?_⟩
    change UnpackedFloat.ofScientific _ number (exponent : Int) = _
    rw [UnpackedFloat.ofScientific, dif_neg (by omega), if_neg, if_neg, if_pos (by omega)]
    · exact hmul
    · change ¬ (exponent : Int) < -(2 ^ 11 + number.log2)
      omega
    · change ¬ (exponent : Int) > 2 ^ 11
      omega

/-- A whole number times a power of ten is a float of about that size, as long as it is not
    near the largest float. -/
theorem read_ofScientific {number exponent : Nat} (positive : 0 < number)
    (bound : number * 10 ^ exponent < 2 ^ 1023) :
    ∃ significand scale,
      read (Float.ofScientific number false exponent) = .finite false significand scale ∧
      number * 10 ^ exponent * unitsPerOne ≤ 2 * (significand * 2 ^ scale) ∧
      significand * 2 ^ scale ≤ 2 * (number * 10 ^ exponent * unitsPerOne) := by
  have power : 0 < 10 ^ exponent := Nat.pow_pos (by decide)
  have most : exponent ≤ 1023 := by
    have powers : 2 ^ exponent < 2 ^ 1023 :=
      calc 2 ^ exponent
        _ ≤ 10 ^ exponent := Nat.pow_le_pow_left (by decide) _
        _ ≤ number * 10 ^ exponent := Nat.le_mul_of_pos_left _ positive
        _ < 2 ^ 1023 := bound
    generalize 1023 = top at powers ⊢
    exact Nat.le_of_lt ((Nat.pow_lt_pow_iff_right (by decide)).1 powers)
  obtain ⟨target, atTarget, hfloat⟩ := exists_rounded_ofScientific positive most
  have amount : 1 ≤ number * 10 ^ exponent := Nat.mul_pos positive power
  generalize number * 10 ^ exponent = value at *
  have units : unitsPerOne ≤ value * unitsPerOne := Nat.le_mul_of_pos_left _ amount
  have large : 2 ^ 53 ≤ 2 * (value * unitsPerOne) := by
    have : 2 ^ 53 ≤ unitsPerOne := by decide +kernel
    omega
  have inRange : 2 * (value * unitsPerOne) < 2 * 2 ^ 2097 := by
    have highest : 2 ^ 1023 * unitsPerOne = 2 ^ 2097 := by decide +kernel
    have less := Nat.mul_lt_mul_of_pos_right bound unitsPerOne_pos
    generalize 2 ^ 1023 = top, 2 ^ 2097 = product at *
    omega
  have half : 2 * (value * unitsPerOne * unitsPerOne) ≤
      unitsPerOne * (2 * (value * unitsPerOne)) := by
    refine Nat.le_of_eq ?_
    generalize unitsPerOne = units
    ac_rfl
  obtain ⟨significand, scale, hread, whole, limit⟩ :=
    read_rounded_le large inRange unitsPerOne_pos half atTarget
  have least := le_rounded unitsPerOne_pos atTarget (Nat.le_mul_of_pos_left _ (by omega))
  rw [← whole] at least
  exact ⟨significand, scale, hfloat ▸ hread, Nat.le_of_mul_le_mul_right least unitsPerOne_pos,
    limit⟩

/-- Whole numbers of at most 64 bits become finite floats. -/
theorem read_ofNat {number : Nat} (bound : number < 2 ^ 64) :
    ∃ significand scale, read (Float.ofNat number) = .finite false significand scale ∧
      significand * 2 ^ scale ≤ 2 ^ 65 * unitsPerOne := by
  rcases Nat.eq_zero_or_pos number with rfl | positive
  · exact ⟨0, 0, by decide +kernel, Nat.zero_le _⟩
  have small : number * 10 ^ 0 < 2 ^ 1023 := by
    rw [Nat.pow_zero, Nat.mul_one]
    exact Nat.lt_trans bound (by decide +kernel)
  obtain ⟨significand, scale, hread, -, limit⟩ := read_ofScientific positive small
  refine ⟨significand, scale, hread, Nat.le_trans limit ?_⟩
  rw [← Nat.mul_assoc]
  exact Nat.mul_le_mul_right _ (by omega)

theorem isFinite_ofInt {value : Int} (nonnegative : 0 ≤ value) (bound : value < 2 ^ 64) :
    isFinite (ofInt value) = true := by
  obtain ⟨number, rfl⟩ := Int.eq_ofNat_of_zero_le nonnegative
  obtain ⟨_, _, hread, -⟩ := read_ofNat (show number < 2 ^ 64 by omega)
  exact isFinite_of_read hread

-- ============================================================================
-- Signs
-- ============================================================================

end ExprMachine.Binary64
