/-
  ExprMachine.Proofs.Binary64.Units

  Arithmetic on finite floats without a minus sign, in units. A sum is off by no more than
  its second operand, a product of few bits and a quotient by a power of two are exact, and
  so a sum of ever smaller shares stays bounded however many there are.
-/
import ExprMachine.Proofs.Binary64.Overflow

namespace ExprMachine.Binary64

open Float.Model (UnpackedFloat Format totalExponent)
open Float.Model.UnpackedFloat

/-- A power of two in units; what lies below it is always rounded to a finite float. -/
def safe : Nat := 2 ^ 2097

/-- Whether a float is finite, has no minus sign and stands for so many units. -/
def HasUnits (x : Float) (amount : Nat) : Prop :=
  ∃ significand scale, read x = .finite false significand scale ∧
    significand * 2 ^ scale = amount

namespace HasUnits

variable {x y : Float} {amount other : Nat}

theorem isFinite (h : HasUnits x amount) : isFinite x = true := by
  obtain ⟨significand, scale, hread, -⟩ := h
  exact isFinite_of_read hread

/-- A float with some units unpacks to them. -/
theorem exists_unpack (h : HasUnits x amount) (some : 0 < amount) :
    ∃ significand scale : Nat, ∃ positive : 0 < significand,
      x.toModel.unpack = .finite .positive significand (scale - 1074) positive ∧
        significand * 2 ^ scale = amount ∧ significand < 2 ^ 53 ∧
          (0 < scale → 2 ^ 52 ≤ significand) := by
  obtain ⟨significand, scale, hread, rfl⟩ := h
  have positive : 0 < significand := Nat.pos_of_mul_pos_right some
  obtain ⟨bound, normal, -⟩ := bounds_of_read hread
  exact ⟨significand, scale, positive, unpack_of_read hread positive, rfl, bound, normal⟩

theorem unpack_zero (h : HasUnits x 0) : x.toModel.unpack = .zero .positive := by
  obtain ⟨significand, scale, hread, none⟩ := h
  rcases cases_of_read hread with zero | ⟨mantissa, exponent, positive, finite⟩
  · exact zero
  · rw [read_eq_ofUnpacked, finite] at hread
    cases hread
    have := Nat.mul_pos positive (Nat.two_pow_pos (exponent + 1074).toNat)
    omega

theorem zero : HasUnits (.ofModel (.pack (.zero .positive))) 0 :=
  ⟨0, 0, by decide, rfl⟩

/-- A float that is packed again keeps its units. -/
theorem pack_unpack (h : HasUnits x amount) :
    HasUnits (.ofModel (.pack x.toModel.unpack)) amount := by
  rcases Nat.eq_zero_or_pos amount with rfl | some
  · rw [h.unpack_zero]
    exact zero
  · obtain ⟨significand, scale, hread, rfl⟩ := h
    have positive : 0 < significand := Nat.pos_of_mul_pos_right some
    obtain ⟨bound, normal, inRange⟩ := bounds_of_read hread
    rw [unpack_of_read hread positive]
    exact ⟨significand, scale, read_pack_finite bound normal inRange, rfl⟩

/-- A rounded quotient has the units that it is rounded to, if it is not too large. -/
theorem rounded {numerator denominator target : Nat} (positive : 0 < denominator)
    (atTarget : AtScale numerator denominator target)
    (bound : numerator < safe * denominator) :
    HasUnits (.ofModel (.pack (Binary64.rounded .positive
        (quotient numerator (2 ^ target * denominator)).roundedMantissa target)))
      ((quotient numerator (2 ^ target * denominator)).roundedMantissa * 2 ^ target) := by
  rw [safe] at bound
  exact read_rounded_quotient positive atTarget (atTarget.lt_of_lt bound)

end HasUnits

-- ============================================================================
-- Sums
-- ============================================================================

/-- A whole number of units is rounded from all its bits. -/
theorem round_units (sign : Sign) {mantissa scale amount : Nat} (positive : 0 < mantissa)
    (value : mantissa * 2 ^ scale = amount) :
    ∃ target, AtScale amount 1 target ∧
      UnpackedFloat.round Format.binary64 sign mantissa (scale - 1074) =
        rounded sign (quotient amount (2 ^ target * 1)).roundedMantissa target := by
  obtain ⟨shift, hshift⟩ : ∃ shift, scale - (mantissa.log2 + scale - 52) = shift := ⟨_, rfl⟩
  have amount : ((scale : Int) - 1074 - (((mantissa.log2 + scale - 52 : Nat) : Int) - 1074)).toNat =
      shift := by omega
  have exponent : (scale : Int) - 1074 - (shift : Nat) = ((scale - shift : Nat) : Int) - 1074 := by
    omega
  rw [UnpackedFloat.round, targetExponent_eq, decreaseExponent]
  simp only [amount, exponent, Nat.shiftLeft_eq]
  refine roundWithAccuracy_quotient Nat.one_pos ?_ ?_
  · have multiple : mantissa * 2 ^ scale = mantissa * 2 ^ shift * (2 ^ (scale - shift) * 1) := by
      rw [Nat.mul_one, Nat.mul_assoc, ← Nat.pow_add, Nat.add_sub_of_le (by omega)]
    rw [← value, multiple]
    exact (quotient_exact _ (Nat.mul_pos (Nat.two_pow_pos _) Nat.one_pos)).symm
  · rcases Nat.lt_or_ge (mantissa.log2 + scale) 52 with few | enough
    · exact .inr (by omega)
    · have bits : 2 ^ 52 ≤ mantissa * 2 ^ shift :=
        calc 2 ^ 52
          _ ≤ 2 ^ (mantissa.log2 + shift) := Nat.pow_le_pow_right (by decide) (by omega)
          _ = 2 ^ mantissa.log2 * 2 ^ shift := Nat.pow_add ..
          _ ≤ mantissa * 2 ^ shift := Nat.mul_le_mul_right _ (Nat.log2_self_le (by omega))
      exact .inl ((Nat.le_log2 (by omega)).2 bits)

/-- The sum of finite floats is the rounded sum of what they stand for. -/
theorem add_finite (scale₁ scale₂ : Nat) {mantissa₁ mantissa₂ : Nat}
    (positive₁ : 0 < mantissa₁) (positive₂ : 0 < mantissa₂) :
    ∃ target, AtScale (mantissa₁ * 2 ^ scale₁ + mantissa₂ * 2 ^ scale₂) 1 target ∧
      add Format.binary64 (.finite .positive mantissa₁ (scale₁ - 1074) positive₁)
          (.finite .positive mantissa₂ (scale₂ - 1074) positive₂) =
        rounded .positive (quotient (mantissa₁ * 2 ^ scale₁ + mantissa₂ * 2 ^ scale₂)
          (2 ^ target * 1)).roundedMantissa target := by
  obtain ⟨scale, hscale⟩ : ∃ scale, min scale₁ scale₂ = scale := ⟨_, rfl⟩
  have finer : min ((scale₁ : Int) - 1074) (scale₂ - 1074) = (scale : Int) - 1074 := by omega
  have amount₁ : ((scale₁ : Int) - 1074 - (scale - 1074)).toNat = scale₁ - scale := by omega
  have amount₂ : ((scale₂ : Int) - 1074 - (scale - 1074)).toNat = scale₂ - scale := by omega
  have aligned : (mantissa₁ * 2 ^ (scale₁ - scale) + mantissa₂ * 2 ^ (scale₂ - scale)) * 2 ^ scale =
      mantissa₁ * 2 ^ scale₁ + mantissa₂ * 2 ^ scale₂ := by
    rw [Nat.add_mul, Nat.mul_assoc, Nat.mul_assoc, ← Nat.pow_add, ← Nat.pow_add,
      Nat.sub_add_cancel (by omega), Nat.sub_add_cancel (by omega)]
  have some : 0 < mantissa₁ * 2 ^ (scale₁ - scale) + mantissa₂ * 2 ^ (scale₂ - scale) :=
    Nat.add_pos_left (Nat.mul_pos positive₁ (Nat.two_pow_pos _)) _
  obtain ⟨target, atTarget, hround⟩ := round_units .positive some aligned
  refine ⟨target, atTarget, ?_⟩
  rw [← hround, add]
  simp only [decreaseExponent, finer, amount₁, amount₂, Nat.shiftLeft_eq, Sign.apply]
  rw [← Int.natCast_add, UnpackedFloat.normalize, Int.compare_eq_gt.2 (by omega)]
  rfl

/-- A sum goes beyond its first operand by no more than twice the second one: the first
    operand is a float, and what the sum is rounded to is at least as near. -/
theorem HasUnits.add {x y : Float} {amount other : Nat} (hx : HasUnits x amount)
    (hy : HasUnits y other) (bound : amount + other < safe) :
    ∃ sum, HasUnits (x + y) sum ∧ sum ≤ amount + 2 * other := by
  change ∃ sum, HasUnits (.ofModel (.pack (UnpackedFloat.add _ x.toModel.unpack
    y.toModel.unpack))) sum ∧ _
  rcases Nat.eq_zero_or_pos other with rfl | some₂
  · rcases Nat.eq_zero_or_pos amount with rfl | some₁
    · rw [hx.unpack_zero, hy.unpack_zero]
      exact ⟨0, .zero, by omega⟩
    · obtain ⟨_, _, _, unpacked, -⟩ := hx.exists_unpack some₁
      have same := hx.pack_unpack
      rw [hy.unpack_zero, unpacked]
      rw [unpacked] at same
      exact ⟨amount, same, by omega⟩
  obtain ⟨mantissa₂, scale₂, positive₂, unpacked₂, rfl, -⟩ := hy.exists_unpack some₂
  rcases Nat.eq_zero_or_pos amount with rfl | some₁
  · have same := hy.pack_unpack
    rw [hx.unpack_zero, unpacked₂]
    rw [unpacked₂] at same
    exact ⟨_, same, by omega⟩
  obtain ⟨mantissa₁, scale₁, positive₁, unpacked₁, rfl, bound₁, -⟩ := hx.exists_unpack some₁
  obtain ⟨target, atTarget, hadd⟩ := add_finite scale₁ scale₂ positive₁ positive₂
  rw [unpacked₁, unpacked₂, hadd]
  refine ⟨_, .rounded Nat.one_pos atTarget (Nat.lt_of_lt_of_eq bound (Nat.mul_one _).symm), ?_⟩
  clear bound
  have near := rounded_add_le Nat.one_pos atTarget (Nat.le_of_lt bound₁)
    (show mantissa₁ * 2 ^ scale₁ * 1 ≤ _ by omega)
  omega

-- ============================================================================
-- Products and quotients with powers of two
-- ============================================================================

/-- Whether a float is zero, or a power of two of units. -/
def IsShare (x : Float) (amount : Nat) : Prop :=
  HasUnits x amount ∧ (amount = 0 ∨ ∃ power, amount = 2 ^ power)

/-- A whole number of few bits times a power of two is exact. -/
theorem HasUnits.mul {x y : Float} {number amount : Nat} (hx : HasUnits x (number * unitsPerOne))
    (hy : IsShare y amount) (few : number ≤ 2 ^ 53) (bound : number * amount < safe) :
    HasUnits (x * y) (number * amount) := by
  change HasUnits (.ofModel (.pack (UnpackedFloat.mul _ x.toModel.unpack y.toModel.unpack))) _
  obtain ⟨hy, rfl | ⟨power, rfl⟩⟩ := hy
  · rcases Nat.eq_zero_or_pos number with rfl | some
    · rw [Nat.zero_mul] at hx
      rw [hx.unpack_zero, hy.unpack_zero]
      exact .zero
    · obtain ⟨_, _, _, unpacked, -⟩ := hx.exists_unpack (Nat.mul_pos some unitsPerOne_pos)
      rw [unpacked, hy.unpack_zero]
      exact .zero
  obtain ⟨mantissa₂, scale₂, positive₂, unpacked₂, value₂, -⟩ :=
    hy.exists_unpack (Nat.two_pow_pos power)
  rcases Nat.eq_zero_or_pos number with rfl | some
  · rw [Nat.zero_mul] at hx ⊢
    rw [hx.unpack_zero, unpacked₂]
    exact .zero
  obtain ⟨mantissa₁, scale₁, positive₁, unpacked₁, value₁, bound₁, normal⟩ :=
    hx.exists_unpack (Nat.mul_pos some unitsPerOne_pos)
  have coarse : 0 < scale₁ := by
    rcases Nat.eq_zero_or_pos scale₁ with rfl | coarse
    · have large : 2 ^ 53 ≤ unitsPerOne := by decide +kernel
      have := Nat.le_mul_of_pos_left unitsPerOne some
      omega
    · exact coarse
  have bits : 2 ^ 52 ≤ mantissa₁ * mantissa₂ :=
    Nat.le_trans (normal coarse) (Nat.le_mul_of_pos_right _ positive₂)
  obtain ⟨target, atTarget, hmul⟩ :=
    mul_finite .positive .positive positive₁ positive₂ bits rfl
  have exact : number * 2 ^ power * unitsPerOne =
      mantissa₁ * 2 ^ scale₁ * (mantissa₂ * 2 ^ scale₂) := by
    rw [value₁, value₂, Nat.mul_right_comm]
  rw [← exact] at atTarget hmul
  have units := HasUnits.rounded unitsPerOne_pos atTarget
    (Nat.mul_lt_mul_of_pos_right bound unitsPerOne_pos)
  rw [rounded_eq unitsPerOne_pos atTarget few rfl] at units
  rw [unpacked₁, unpacked₂, hmul]
  exact units

/-- A power of two that is divided by one is a power of two again, or zero when it is not a
    whole number of units any more. -/
theorem IsShare.div {x y : Float} {amount bits : Nat} (hx : IsShare x amount)
    (hy : HasUnits y (2 ^ bits * unitsPerOne)) (bound : amount < safe) :
    ∃ part, IsShare (x / y) part ∧ 2 ^ bits * part ≤ amount := by
  change ∃ part, IsShare (.ofModel (.pack (UnpackedFloat.div _ x.toModel.unpack
    y.toModel.unpack))) part ∧ _
  obtain ⟨mantissa₂, scale₂, positive₂, unpacked₂, value₂, -⟩ :=
    hy.exists_unpack (Nat.mul_pos (Nat.two_pow_pos bits) unitsPerOne_pos)
  obtain ⟨hx, rfl | ⟨power, rfl⟩⟩ := hx
  · rw [hx.unpack_zero, unpacked₂]
    exact ⟨0, ⟨.zero, .inl rfl⟩, by omega⟩
  obtain ⟨mantissa₁, scale₁, positive₁, unpacked₁, value₁, -⟩ :=
    hx.exists_unpack (Nat.two_pow_pos power)
  have divisor : 0 < 2 ^ bits := Nat.two_pow_pos bits
  have ratio : mantissa₁ * 2 ^ scale₁ * unitsPerOne * 2 ^ bits =
      2 ^ power * (mantissa₂ * 2 ^ scale₂) := by
    rw [value₁, value₂, Nat.mul_assoc, Nat.mul_comm unitsPerOne]
  obtain ⟨target, atTarget, hdiv⟩ :=
    div_finite .positive .positive positive₁ positive₂ divisor ratio
  have units := HasUnits.rounded divisor atTarget
    (Nat.lt_of_lt_of_le bound (Nat.le_mul_of_pos_right _ divisor))
  rw [unpacked₁, unpacked₂, hdiv]
  rcases Nat.lt_or_ge power bits with less | enough
  · have none : (quotient (2 ^ power) (2 ^ target * 2 ^ bits)).roundedMantissa = 0 := by
      have double : 2 * 2 ^ power ≤ 2 ^ target * 2 ^ bits := by
        rw [← Nat.pow_succ', ← Nat.pow_add]
        exact Nat.pow_le_pow_right (by decide) (by omega)
      have step : 0 < 2 ^ target * 2 ^ bits := Nat.mul_pos (Nat.two_pow_pos _) divisor
      exact roundedMantissa_quotient step (by omega) (by omega) (fun _ => rfl)
    rw [none, Nat.zero_mul] at units
    rw [none]
    exact ⟨0, ⟨units, .inl rfl⟩, by omega⟩
  · obtain ⟨more, rfl⟩ := Nat.exists_eq_add_of_le' enough
    have exact : 1 * 2 ^ more * 2 ^ bits = 2 ^ (more + bits) := by
      rw [Nat.one_mul, Nat.pow_add]
    rw [rounded_eq divisor atTarget (by decide) exact, Nat.one_mul] at units
    exact ⟨2 ^ more, ⟨units, .inr ⟨more, rfl⟩⟩, Nat.le_of_eq (by rw [Nat.mul_comm, ← Nat.pow_add])⟩

end ExprMachine.Binary64
