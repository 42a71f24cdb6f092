/-
  ExprMachine.Proofs.Binary64.Unpacked

  What the bits of a float stand for and what its unpacked form stands for are the same,
  and packing keeps what a rounded float stands for.
-/
import Mathlib
import ExprMachine.Binary64.Exact

namespace ExprMachine.Binary64

open Float.Model (UnpackedFloat Format)
open Float.Model.UnpackedFloat

theorem unitsPerOne_pos : 0 < unitsPerOne := by
  decide +kernel

theorem two_pow_add_units (scale : Nat) : 2 ^ (scale + 1074) = 2 ^ scale * unitsPerOne := by
  rw [unitsPerOne, Nat.pow_add]

-- ============================================================================
-- Unpacking
-- ============================================================================

/-- What an unpacked float stands for. -/
def Reading.ofUnpacked : UnpackedFloat → Reading
  | .notANumber => .notANumber
  | .infinity sign => .infinite (sign == .negative)
  | .zero sign => .finite (sign == .negative) 0 0
  | .finite sign mantissa exponent _ =>
    .finite (sign == .negative) mantissa (exponent + 1074).toNat

theorem toNat_unpackMantissa (bits : BitVec Format.binary64.numBits) :
    (unpackMantissa bits).toNat = bits.toNat % 2 ^ 52 := by
  simp [unpackMantissa]

theorem toNat_unpackExponent (bits : BitVec Format.binary64.numBits) :
    (unpackExponent bits).toNat = bits.toNat / 2 ^ 52 % 2 ^ 11 := by
  simp [unpackExponent, Nat.shiftRight_eq_div_pow]

theorem toNat_unpackSign (bits : BitVec Format.binary64.numBits) :
    (unpackSign bits).toNat = bits.toNat / 2 ^ 63 := by
  have bound : bits.toNat < 2 ^ 64 := bits.isLt
  simp [unpackSign, Nat.shiftRight_eq_div_pow]
  omega

theorem ofBitVec_unpackSign (bits : BitVec Format.binary64.numBits) :
    (Sign.ofBitVec (unpackSign bits) == .negative) = decide (2 ^ 63 ≤ bits.toNat) := by
  have bound : bits.toNat < 2 ^ 64 := bits.isLt
  have value := toNat_unpackSign bits
  by_cases negative : 2 ^ 63 ≤ bits.toNat
  · have : unpackSign bits ≠ 0#1 := fun h => by
      rw [h, BitVec.toNat_zero] at value
      omega
    rw [Sign.ofBitVec, if_neg this, decide_eq_true negative]
    rfl
  · have : unpackSign bits = 0#1 := by
      apply BitVec.eq_of_toNat_eq
      rw [value, BitVec.toNat_zero]
      omega
    rw [Sign.ofBitVec, if_pos this, decide_eq_false negative]
    rfl

theorem readBits_toNat (bits : BitVec Format.binary64.numBits) :
    readBits bits.toNat = .ofUnpacked (unpack Format.binary64 bits) := by
  have field := toNat_unpackExponent bits
  have fraction := toNat_unpackMantissa bits
  have top : unpackExponent bits = (-1#11) ↔ bits.toNat / 2 ^ 52 % 2 ^ 11 = 2047 := by
    rw [← field, ← BitVec.toNat_inj]; rfl
  have bottom : unpackExponent bits = 0#11 ↔ bits.toNat / 2 ^ 52 % 2 ^ 11 = 0 := by
    rw [← field, ← BitVec.toNat_inj]; rfl
  have whole : unpackMantissa bits = 0#52 ↔ bits.toNat % 2 ^ 52 = 0 := by
    rw [← fraction, ← BitVec.toNat_inj]; rfl
  unfold readBits unpack
  simp only [top, bottom, whole]
  split
  · split <;> simp only [Reading.ofUnpacked, ofBitVec_unpackSign]
  · split
    · split
      · rename_i zero
        simp only [Reading.ofUnpacked, ofBitVec_unpackSign, zero]
      · rename_i zero _
        simp only [Reading.ofUnpacked, ofBitVec_unpackSign, fraction, field, zero]
        rfl
    · rename_i zero
      have implicit : (1#1 ++ unpackMantissa bits).toNat = 2 ^ 52 + bits.toNat % 2 ^ 52 := by
        rw [BitVec.toNat_append, ← Nat.shiftLeft_add_eq_or_of_lt (unpackMantissa bits).isLt,
          fraction]
        rfl
      have bias : (Format.binary64.exponentBias : Int) +
          (Format.binary64.mantissaBitsWithoutImplicit : Nat) = 1075 := rfl
      simp only [Reading.ofUnpacked, ofBitVec_unpackSign, implicit, field, bias]
      congr 1
      omega

theorem read_eq_ofUnpacked (x : Float) : read x = .ofUnpacked x.toModel.unpack :=
  readBits_toNat x.toModel.toBits.toBitVec

theorem exponent_of_unpack {bits : BitVec Format.binary64.numBits} {sign : Sign} {mantissa : Nat}
    {exponent : Int} {positive : 0 < mantissa}
    (h : unpack Format.binary64 bits = .finite sign mantissa exponent positive) :
    -1074 ≤ exponent := by
  have bias : (Format.binary64.exponentBias : Int) +
      (Format.binary64.mantissaBitsWithoutImplicit : Nat) = 1075 := rfl
  rw [unpack] at h
  simp only [bias] at h
  split at h
  · split at h <;> cases h
  · split at h
    · split at h
      · cases h
      · injection h with _ _ h
        omega
    · rename_i nonzero
      have : (unpackExponent bits).toNat ≠ 0 := fun zero => nonzero (BitVec.eq_of_toNat_eq zero)
      injection h with _ _ h
      omega

-- ============================================================================
-- Packing
-- ============================================================================

theorem toNat_packComponents (sign : Sign) (exponent : BitVec 11) (fraction : BitVec 52) :
    (packComponents Format.binary64 sign exponent fraction).toNat =
      (if sign == .negative then 2 ^ 63 else 0) + exponent.toNat * 2 ^ 52 + fraction.toNat := by
  have leading : sign.toBitVec.toNat * 2 ^ 63 = if sign == .negative then 2 ^ 63 else 0 := by
    cases sign <;> rfl
  rw [packComponents, BitVec.toNat_append, ← Nat.shiftLeft_add_eq_or_of_lt fraction.isLt,
    BitVec.toNat_append, ← Nat.shiftLeft_add_eq_or_of_lt exponent.isLt, Nat.shiftLeft_eq,
    Nat.shiftLeft_eq, ← leading]
  change (sign.toBitVec.toNat * 2 ^ 11 + exponent.toNat) * 2 ^ 52 + fraction.toNat = _
  rw [Nat.add_mul, Nat.mul_assoc, ← Nat.pow_add]

theorem readBits_packComponents (sign : Sign) (exponent : BitVec 11) (fraction : BitVec 52) :
    readBits (packComponents Format.binary64 sign exponent fraction).toNat =
      if exponent.toNat = 2047 then
        if fraction.toNat = 0 then .infinite (sign == .negative) else .notANumber
      else if exponent.toNat = 0 then .finite (sign == .negative) fraction.toNat 0
      else .finite (sign == .negative) (2 ^ 52 + fraction.toNat) (exponent.toNat - 1) := by
  have boundExponent : exponent.toNat < 2 ^ 11 := exponent.isLt
  have boundFraction : fraction.toNat < 2 ^ 52 := fraction.isLt
  rw [toNat_packComponents]
  generalize hbits : (if (sign == .negative) = true then 2 ^ 63 else 0) + exponent.toNat * 2 ^ 52 +
    fraction.toNat = bits
  have field : bits / 2 ^ 52 % 2 ^ 11 = exponent.toNat := by split at hbits <;> omega
  have rest : bits % 2 ^ 52 = fraction.toNat := by split at hbits <;> omega
  have negative : decide (2 ^ 63 ≤ bits) = (sign == .negative) := by
    cases sign
    · change 2 ^ 63 + exponent.toNat * 2 ^ 52 + fraction.toNat = bits at hbits
      exact decide_eq_true (by omega)
    · change 0 + exponent.toNat * 2 ^ 52 + fraction.toNat = bits at hbits
      exact decide_eq_false (by omega)
  simp only [readBits, field, rest, negative]

theorem read_ofModel_pack (unpacked : UnpackedFloat) :
    read (.ofModel (.pack unpacked)) = readBits (pack Format.binary64 unpacked).toNat :=
  rfl

/-- A finite float that is rounded keeps its parts. -/
theorem read_pack_finite {sign : Sign} {mantissa scale : Nat} {positive : 0 < mantissa}
    (bound : mantissa < 2 ^ 53) (normal : 0 < scale → 2 ^ 52 ≤ mantissa) (inRange : scale ≤ 2045) :
    read (.ofModel (.pack (.finite sign mantissa (scale - 1074) positive))) =
      .finite (sign == .negative) mantissa scale := by
  have biased : (((scale : Int) - 1074) + Format.binary64.exponentBias +
      Format.binary64.mantissaBitsWithoutImplicit).toNat = scale + 1 := by
    change (((scale : Int) - 1074) + 1023 + 52).toNat = scale + 1
    omega
  have fits : ¬ 2 ^ Format.binary64.exponentBits ≤ scale + 1 + 1 := by
    change ¬ 2 ^ 11 ≤ scale + 1 + 1
    omega
  rw [read_ofModel_pack]
  simp only [pack, biased, if_neg fits]
  by_cases top : 2 ^ 52 ≤ mantissa
  · have bits : mantissa.log2 + 1 = Format.binary64.mantissaBits :=
      congrArg (· + 1) ((Nat.log2_eq_iff (by omega)).2 ⟨top, bound⟩)
    rw [if_pos bits]
    refine (readBits_packComponents ..).trans ?_
    have exponent : (BitVec.ofNat 11 (scale + 1)).toNat = scale + 1 := by
      rw [BitVec.toNat_ofNat]; omega
    have fraction : (BitVec.ofNat 52 mantissa).toNat = mantissa - 2 ^ 52 := by
      rw [BitVec.toNat_ofNat]; omega
    rw [exponent, fraction, if_neg (by omega), if_neg (by omega), Nat.add_sub_of_le top,
      Nat.add_sub_cancel]
  · have bits : mantissa.log2 + 1 ≠ Format.binary64.mantissaBits := fun h => by
      have : mantissa.log2 = 52 := Nat.succ.inj h
      exact top (this ▸ Nat.log2_self_le (by omega))
    rw [if_neg bits]
    refine (readBits_packComponents ..).trans ?_
    have fraction : (BitVec.ofNat 52 mantissa).toNat = mantissa := by
      rw [BitVec.toNat_ofNat]; omega
    obtain rfl : scale = 0 := by omega
    rw [fraction]
    rfl

-- ============================================================================
-- Finite floats
-- ============================================================================

theorem bounds_of_readBits {bits : Nat} {negative : Bool} {significand scale : Nat}
    (h : readBits bits = .finite negative significand scale) :
    significand < 2 ^ 53 ∧ (0 < scale → 2 ^ 52 ≤ significand) ∧ scale ≤ 2045 := by
  rw [readBits] at h
  split at h
  · split at h <;> cases h
  · split at h <;> cases h <;> omega

theorem bounds_of_read {x : Float} {negative : Bool} {significand scale : Nat}
    (h : read x = .finite negative significand scale) :
    significand < 2 ^ 53 ∧ (0 < scale → 2 ^ 52 ≤ significand) ∧ scale ≤ 2045 :=
  bounds_of_readBits h

theorem bits_of_readBits {bits : Nat} (bound : bits < 2 ^ 64) {negative : Bool}
    {significand scale : Nat} (h : readBits bits = .finite negative significand scale) :
    bits = (if negative then 2 ^ 63 else 0) +
      if significand < 2 ^ 52 then significand else scale * 2 ^ 52 + significand := by
  rw [readBits] at h
  split at h
  · split at h <;> cases h
  · split at h <;> cases h <;> simp only [decide_eq_true_eq] <;> split <;> split <;> omega

theorem bits_of_read {x : Float} {negative : Bool} {significand scale : Nat}
    (h : read x = .finite negative significand scale) :
    x.toBits.toNat = (if negative then 2 ^ 63 else 0) +
      if significand < 2 ^ 52 then significand else scale * 2 ^ 52 + significand :=
  bits_of_readBits x.toBits.toBitVec.isLt h

/-- Floats with the same bits are the same. -/
theorem eq_of_toBits_eq {x y : Float} (same : x.toBits = y.toBits) : x = y := by
  obtain ⟨⟨_, _⟩⟩ := x
  obtain ⟨⟨_, _⟩⟩ := y
  cases same
  rfl

/-- A finite float is what it stands for. -/
theorem eq_of_read {x y : Float} {negative : Bool} {significand scale : Nat}
    (hx : read x = .finite negative significand scale)
    (hy : read y = .finite negative significand scale) : x = y :=
  eq_of_toBits_eq (UInt64.toNat.inj ((bits_of_read hx).trans (bits_of_read hy).symm))

theorem read_zero : read (ofUnits false 0) = .finite false 0 0 := by
  decide +kernel

theorem isFinite_zero : isFinite (ofUnits false 0) = true := by
  rw [isFinite, read_zero]

-- ============================================================================
-- Floats without a minus sign
-- ============================================================================

/-- Whether a reading is a number and has no minus sign. -/
def Reading.isPositive : Reading → Bool
  | .finite negative _ _ | .infinite negative => !negative
  | .notANumber => false

/-- Whether a float is a number and has no minus sign. -/
def isPositive (value : Float) : Bool :=
  (read value).isPositive

theorem isPositive_zero : isPositive (ofUnits false 0) = true := by
  rw [isPositive, read_zero]
  rfl

theorem cases_of_isPositive {value : Float} (h : isPositive value = true) :
    (∃ significand scale, read value = .finite false significand scale) ∨
      read value = .infinite false := by
  unfold isPositive Reading.isPositive at h
  cases hread : read value with
  | notANumber =>
    rw [hread] at h
    cases h
  | finite negative significand scale =>
    rw [hread, Bool.not_eq_true'] at h
    exact .inl ⟨significand, scale, by rw [h]⟩
  | infinite negative =>
    rw [hread, Bool.not_eq_true'] at h
    exact .inr (by rw [h])

/-- Whether a reading is a finite number without a minus sign whose significand and scale
    pass a test. -/
def Reading.passes (reading : Reading) (test : Nat → Nat → Bool) : Bool :=
  match reading with
  | .finite false significand scale => test significand scale
  | _ => false

theorem Reading.exists_of_passes {reading : Reading} {test : Nat → Nat → Bool}
    (h : reading.passes test = true) :
    ∃ significand scale, reading = .finite false significand scale ∧
      test significand scale = true := by
  unfold passes at h
  split at h
  · exact ⟨_, _, rfl, h⟩
  · cases h

end ExprMachine.Binary64
