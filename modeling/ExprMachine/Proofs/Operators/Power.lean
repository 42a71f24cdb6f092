/-
  ExprMachine.Proofs.Operators.Power

  The power of two integers. Repeated squaring forms squares that are larger than what is
  multiplied last, but never one that is too large for 64 bits while the result is not, so
  that it is exact. Exponents of more than 32 bits are refused, which is right for every
  base but 0, 1 and -1.
-/
import Mathlib.Tactic.Linarith
import ExprMachine.Proofs.Operators.Arithmetic

namespace ExprMachine

namespace Arithmetic

-- ============================================================================
-- Products that do not fit
-- ============================================================================

/-- What does not fit does not fit either when it is multiplied by a positive number. -/
theorem not_fits_mul {n factor : Int} (h : ¬ Fits n) (positive : 1 ≤ factor) :
    ¬ Fits (n * factor) := by
  unfold Fits at *
  rcases lt_or_ge n 0 with negative | nonneg
  · have : n * factor ≤ n := by nlinarith
    omega
  · have : n ≤ n * factor := by nlinarith
    omega

/-- No number but zero brings a square that does not fit back into range. The least
    integer would be in reach if its size were a square. -/
theorem not_fits_mul_square {n base : Int} (h : ¬ Fits (base * base)) (nonzero : n ≠ 0) :
    ¬ Fits (n * (base * base)) := by
  have above : 2 ^ 63 < base * base := by
    unfold Fits at h
    have nonneg := mul_self_nonneg base
    have apart : base * base ≠ 2 ^ 63 := by
      intro same
      have below : base.natAbs * base.natAbs = 2 ^ 63 := by
        rw [← Int.natAbs_mul, same]; rfl
      rcases Nat.lt_or_ge base.natAbs 3037000500 with small | large
      · have := Nat.mul_self_le_mul_self (Nat.le_of_lt_succ small)
        omega
      · have := Nat.mul_self_le_mul_self large
        omega
    omega
  unfold Fits
  rcases lt_or_gt_of_ne nonzero with negative | positive
  · have : n * (base * base) ≤ -(base * base) := by nlinarith
    omega
  · have : base * base ≤ n * (base * base) := by nlinarith
    omega

theorem one_le_square {base : Int} (nonzero : base ≠ 0) : 1 ≤ base * base := by
  have := mul_self_pos.2 nonzero
  omega

-- ============================================================================
-- Repeated squaring
-- ============================================================================

/-- The factor with the lowest bit of the exponent taken in. -/
def taken (factor base : Int) (exponent : Nat) : Int :=
  if exponent % 2 = 1 then factor * base else factor

/-- The factor and the power that are left to multiply after one bit of the exponent. -/
theorem mul_pow_step (factor base : Int) (exponent : Nat) :
    factor * base ^ exponent = taken factor base exponent * (base * base) ^ (exponent / 2) := by
  rw [taken, ← pow_two, ← pow_mul]
  by_cases odd : exponent % 2 = 1
  · rw [if_pos odd, mul_assoc, ← pow_succ']
    congr 2
    omega
  · rw [if_neg odd]
    congr 2
    omega

theorem takeBit?_eq {factor : Int} (fits : Fits factor) (base : Int) (exponent : Nat) :
    takeBit? factor base exponent =
      if Fits (taken factor base exponent) then some (taken factor base exponent) else none := by
  unfold takeBit? taken product?
  by_cases odd : exponent % 2 = 1
  · rw [if_pos odd, if_pos odd]
  · rw [if_neg odd, if_neg odd, if_pos fits]

theorem taken_ne_zero {factor base : Int} (hfactor : factor ≠ 0) (hbase : base ≠ 0)
    (exponent : Nat) : taken factor base exponent ≠ 0 := by
  unfold taken
  split
  · exact mul_ne_zero hfactor hbase
  · exact hfactor

theorem fits_taken_zero {factor : Int} (fits : Fits factor) (exponent : Nat) :
    Fits (taken factor 0 exponent) := by
  unfold taken
  split
  · rw [mul_zero]
    decide
  · exact fits

/-- Repeated squaring is exact: the factor and the squares on the way fit whenever the
    product does. The factor is zero only when the base is, whose squares all fit. -/
theorem timesPower?_eq {factor : Int} (fits : Fits factor) {base : Int}
    (zero : base ≠ 0 → factor ≠ 0) (exponent : Nat) :
    timesPower? factor base exponent =
      if Fits (factor * base ^ exponent) then some (factor * base ^ exponent) else none := by
  induction exponent using Nat.strong_induction_on generalizing factor base with
  | _ exponent ih =>
    rw [timesPower?]
    by_cases finished : exponent = 0
    · subst finished
      simp [fits]
    rw [if_neg finished, mul_pow_step, takeBit?_eq fits]
    have nonzero (h : base ≠ 0) := taken_ne_zero (zero h) h exponent
    by_cases within : Fits (taken factor base exponent)
    case neg =>
      -- A base other than zero leads further out.
      have hbase : base ≠ 0 := by
        rintro rfl
        exact within (fits_taken_zero fits exponent)
      have beyond := not_fits_mul within (one_le_pow₀ (one_le_square hbase) (n := exponent / 2))
      rw [if_neg within, if_neg beyond]
    case pos =>
      rw [if_pos within]
      by_cases last : exponent = 1
      · subst last
        simp [within]
      rw [product?]
      by_cases square : Fits (base * base)
      · simp only [last, if_pos square, if_false]
        exact ih _ (by omega) within fun h => nonzero fun same => h (by rw [same, mul_zero])
      · have hbase : base ≠ 0 := by
          rintro rfl
          exact square (by decide)
        -- The exponent has a bit left, so the square is a factor of the result.
        obtain ⟨half, hhalf⟩ : ∃ half, exponent / 2 = half + 1 := ⟨exponent / 2 - 1, by omega⟩
        have beyond := not_fits_mul_square square
          (mul_ne_zero (nonzero hbase) (pow_ne_zero half (mul_ne_zero hbase hbase)))
        simp only [last, if_neg square, if_false]
        rw [hhalf, pow_succ, ← mul_assoc, if_neg beyond]

-- ============================================================================
-- Powers
-- ============================================================================

/-- Whether a power is refused although it fits: those of 0, 1 and -1 do for exponents of
    any size. -/
def RefusedPower (a b : Int64) : Prop :=
  a.toInt.natAbs ≤ 1 ∧ 2 ^ 32 ≤ b.toInt

theorem fits_pow_of_natAbs_le_one {base : Int} (h : base.natAbs ≤ 1) (exponent : Nat) :
    Fits (base ^ exponent) := by
  have size : (base ^ exponent).natAbs ≤ 1 := by
    rw [Int.natAbs_pow]
    exact (Nat.pow_le_pow_left h exponent).trans (Nat.one_pow exponent).le
  unfold Fits
  omega

theorem not_fits_pow_of_two_le {base : Int} (h : 2 ≤ base.natAbs) {exponent : Nat}
    (large : 64 ≤ exponent) : ¬ Fits (base ^ exponent) := by
  have size : 2 ^ 64 ≤ (base ^ exponent).natAbs := by
    rw [Int.natAbs_pow]
    calc 2 ^ 64 ≤ 2 ^ exponent := Nat.pow_le_pow_right (by decide) large
      _ ≤ base.natAbs ^ exponent := Nat.pow_le_pow_left h exponent
  unfold Fits
  omega

/-- Exponents that 32 bits hold give the exact power, as far as it fits. -/
theorem pow_eq {a b : Int64} (nonneg : 0 ≤ b.toInt) :
    pow a b = if 2 ^ 32 ≤ b.toInt then .error .integerOverflow
      else checked (a.toInt ^ b.toInt.toNat) := by
  have signed : ¬ b < 0 := by
    rw [Int64.lt_iff_toInt_lt]
    exact not_lt.2 nonneg
  have exponent : b.toNatClampNeg = b.toInt.toNat := rfl
  unfold pow
  rw [if_neg signed, exponent]
  by_cases long : 2 ^ 32 ≤ b.toInt
  · rw [if_pos long, if_pos (by omega)]
  · have one : a.toInt ≠ 0 → (1 : Int) ≠ 0 := fun _ => one_ne_zero
    have power := timesPower?_eq (by decide) one b.toInt.toNat
    rw [one_mul] at power
    rw [if_neg long, if_neg (by omega), power, checked]
    by_cases fits : Fits (a.toInt ^ b.toInt.toNat)
    · simp only [if_pos fits]
    · simp only [if_neg fits]

/-- A power answers with the exact result just when 64 bits hold it, and fails with an
    overflow just when they do not, except that long exponents of 0, 1 and -1 are refused,
    all powers of which fit. -/
theorem pow_eq_ok_iff {a b : Int64} (nonneg : 0 ≤ b.toInt) {value : Value} :
    pow a b = .ok value ↔
      (∃ power : Int64, power.toInt = a.toInt ^ b.toInt.toNat ∧ value = .int power) ∧
        ¬ RefusedPower a b := by
  rw [pow_eq nonneg]
  by_cases long : 2 ^ 32 ≤ b.toInt
  · rw [if_pos long]
    constructor
    · exact nofun
    · rintro ⟨⟨power, same, -⟩, accepted⟩
      have large : 2 ≤ a.toInt.natAbs := by
        by_contra small
        exact accepted ⟨by omega, long⟩
      exact absurd (same ▸ fits_toInt power) (not_fits_pow_of_two_le large (by omega))
  · have accepted : ¬ RefusedPower a b := fun h => long h.2
    rw [if_neg long, checked_eq_ok_iff]
    exact (and_iff_left accepted).symm

theorem pow_eq_error_iff {a b : Int64} (nonneg : 0 ≤ b.toInt) {error : CallError} :
    pow a b = .error error ↔
      error = .integerOverflow ∧
        (¬ Fits (a.toInt ^ b.toInt.toNat) ∨ RefusedPower a b) := by
  rw [pow_eq nonneg]
  by_cases long : 2 ^ 32 ≤ b.toInt
  · have beyond : ¬ Fits (a.toInt ^ b.toInt.toNat) ∨ RefusedPower a b := by
      by_cases small : a.toInt.natAbs ≤ 1
      · exact .inr ⟨small, long⟩
      · exact .inl (not_fits_pow_of_two_le (by omega) (by omega))
    rw [if_pos long, Except.error.injEq, and_iff_left beyond]
    exact eq_comm
  · have accepted : ¬ RefusedPower a b := fun h => long h.2
    rw [if_neg long, checked_eq_error_iff, or_iff_left accepted]

end Arithmetic

-- ============================================================================
-- The standard overload
-- ============================================================================

namespace Registry

open Arithmetic (Fits RefusedPower)

/-- The standard overload for the power of two integers is exact for every exponent that is
    not negative. It answers with the power just when 64 bits hold it and fails with an
    overflow just when they do not, except that the powers of 0, 1 and -1, which all fit,
    are refused when the exponent has more than 32 bits. -/
theorem standard_power_exact {a b : Int64} (nonneg : 0 ≤ b.toInt) :
    ∃ overload, standard.resolve? "^" .int .int = some overload ∧
      (∀ value, overload.apply (.int a) (.int b) = .ok value ↔
        (∃ power : Int64, power.toInt = a.toInt ^ b.toInt.toNat ∧ value = .int power) ∧
          ¬ RefusedPower a b) ∧
      (∀ error, overload.apply (.int a) (.int b) = .error error ↔
        error = .integerOverflow ∧
          (¬ Fits (a.toInt ^ b.toInt.toNat) ∨ RefusedPower a b)) ∧
      (RefusedPower a b → Fits (a.toInt ^ b.toInt.toNat)) :=
  ⟨.ofTyped .int .int Arithmetic.pow, resolve?_onInts (by simp [onInts]),
    fun _ => Arithmetic.pow_eq_ok_iff nonneg, fun _ => Arithmetic.pow_eq_error_iff nonneg,
    fun refused => Arithmetic.fits_pow_of_natAbs_le_one refused.1 _⟩

/-- The least integer is a power, and the next power of the same base is not an integer of
    64 bits. -/
theorem standard_power_exact_least :
    0 ≤ (63 : Int64).toInt ∧ ∃ overload, standard.resolve? "^" .int .int = some overload ∧
      overload.apply (.int (-2)) (.int 63) = .ok (.int .minValue) ∧
      overload.apply (.int (-2)) (.int 64) = .error .integerOverflow := by
  have nonneg : 0 ≤ (63 : Int64).toInt := by decide
  obtain ⟨overload, found, value, -⟩ := standard_power_exact (a := -2) nonneg
  obtain ⟨other, found', -, error, -⟩ := standard_power_exact (a := -2) (b := 64) (by decide)
  obtain rfl := Option.some.inj (found.symm.trans found')
  refine ⟨nonneg, overload, found, ?_, ?_⟩
  · exact (value _).2 ⟨⟨.minValue, rfl, rfl⟩, by unfold RefusedPower; decide⟩
  · exact (error _).2 ⟨rfl, .inl (by decide)⟩

/-- One to the power of 2 ^ 32 is one, and yet it is refused. -/
theorem standard_power_refused :
    (1 : Int64).toInt ^ (4294967296 : Int64).toInt.toNat = (1 : Int64).toInt ∧
      ∃ overload, standard.resolve? "^" .int .int = some overload ∧
        overload.apply (.int 1) (.int 4294967296) = .error .integerOverflow :=
  ⟨one_pow _, .ofTyped .int .int Arithmetic.pow, resolve?_onInts (by simp [onInts]), rfl⟩

end Registry

end ExprMachine
