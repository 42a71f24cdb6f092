/-
  ExprMachine.Proofs.Decimal.Shortest

  The search for the shortest decimal ends on one that lies in the interval around its
  float: seventeen digits below the coarsest grid, two points of the grid are closer to
  each other than the float is to the end of the interval.
-/
import ExprMachine.Decimal.Shortest
import ExprMachine.Proofs.Binary64.Rounding

namespace ExprMachine.Decimal

-- ============================================================================
-- Points of a grid
-- ============================================================================

theorem holds_of_onGrid? {interval : Interval} {tie : Tie} {exponent : Int} {digits : Nat}
    (h : interval.onGrid? tie exponent = some digits) :
    interval.holds (10 ^ (-exponent).toNat) (10 ^ exponent.toNat * (4 * Binary64.unitsPerOne))
      digits = true := by
  unfold Interval.onGrid? at h
  simp only at h
  generalize interval.value * 10 ^ (-exponent).toNat / _ = nearest at h
  split at h
  · cases h
  · rename_i below _
    exact Option.some.inj h ▸ below
  · rename_i above
    exact Option.some.inj h ▸ above
  · rename_i below above
    split at h
    · exact Option.some.inj h ▸ below
    split at h
    · exact Option.some.inj h ▸ above
    cases tie
    · exact Option.some.inj h ▸ above
    · have h := Option.some.inj h
      split at h
      · exact h ▸ below
      · exact h ▸ above

/-- A grid that has a point in the interval right below the value has one. -/
theorem onGrid?_isSome_of_holds {interval : Interval} {tie : Tie} {exponent : Int}
    (held : interval.holds (10 ^ (-exponent).toNat)
      (10 ^ exponent.toNat * (4 * Binary64.unitsPerOne))
      (interval.value * 10 ^ (-exponent).toNat /
        (10 ^ exponent.toNat * (4 * Binary64.unitsPerOne))) = true) :
    (interval.onGrid? tie exponent).isSome = true := by
  unfold Interval.onGrid?
  simp only [held]
  split
  · rename_i absent _
    cases absent
  · rfl
  · rfl
  · split
    · rfl
    split
    · rfl
    cases tie <;> rfl

/-- A grid that is finer than the lower half of an interval has a point in it. -/
theorem onGrid?_isSome {interval : Interval} {tie : Tie} {exponent : Int}
    (fine : interval.low * 10 ^ (-exponent).toNat +
      10 ^ exponent.toNat * (4 * Binary64.unitsPerOne) ≤
        interval.value * 10 ^ (-exponent).toNat)
    (high : interval.value < interval.high) : (interval.onGrid? tie exponent).isSome = true := by
  have quarter : 0 < 10 ^ (-exponent).toNat := Nat.pow_pos (by decide)
  have step : 0 < 10 ^ exponent.toNat * (4 * Binary64.unitsPerOne) :=
    Nat.mul_pos (Nat.pow_pos (by decide)) (Nat.mul_pos (by decide) Binary64.unitsPerOne_pos)
  have upper := Nat.mul_lt_mul_of_pos_right high quarter
  have held : interval.holds (10 ^ (-exponent).toNat)
      (10 ^ exponent.toNat * (4 * Binary64.unitsPerOne))
      (interval.value * 10 ^ (-exponent).toNat /
        (10 ^ exponent.toNat * (4 * Binary64.unitsPerOne))) = true := by
    have parts := Nat.div_add_mod (interval.value * 10 ^ (-exponent).toNat)
      (10 ^ exponent.toNat * (4 * Binary64.unitsPerOne))
    have rest := Nat.mod_lt (interval.value * 10 ^ (-exponent).toNat) step
    rw [Nat.mul_comm] at parts
    rw [Interval.holds]
    generalize 10 ^ exponent.toNat * (4 * Binary64.unitsPerOne) = width at *
    generalize interval.value * 10 ^ (-exponent).toNat / width * width = point at *
    split <;> simp only [Bool.and_eq_true, decide_eq_true_eq] <;> omega
  exact onGrid?_isSome_of_holds held

-- ============================================================================
-- The search
-- ============================================================================

/-- Whether a decimal lies in an interval. -/
def Interval.contains (interval : Interval) (decimal : Decimal) : Bool :=
  interval.holds (10 ^ (-decimal.exponent).toNat)
    (10 ^ decimal.exponent.toNat * (4 * Binary64.unitsPerOne)) decimal.digits

/-- The search ends on a grid with a point in the interval, and goes on to none that is finer
    than one it knows. -/
theorem exists_search {interval : Interval} {tie : Tie} {steps : Nat} {exponent : Int}
    {finer : Nat} (less : finer < steps)
    (found : (interval.onGrid? tie (exponent - finer)).isSome = true) :
    ∃ (last : Int) (digits : Nat), exponent - finer ≤ last ∧
      interval.onGrid? tie last = some digits ∧
        interval.search tie exponent steps = ⟨digits, last⟩ := by
  induction steps generalizing exponent finer with
  | zero => exact absurd less (Nat.not_lt_zero _)
  | succ steps ih =>
    rw [Interval.search]
    cases hgrid : interval.onGrid? tie exponent with
    | some digits => exact ⟨exponent, digits, by omega, hgrid, rfl⟩
    | none =>
      cases finer with
      | zero =>
        rw [Int.natCast_zero, Int.sub_zero, hgrid] at found
        cases found
      | succ finer =>
        have same : exponent - 1 - (finer : Int) = exponent - ((finer + 1 : Nat) : Int) := by omega
        rw [← same] at found ⊢
        exact ih (Nat.lt_of_succ_lt_succ less) found

/-- The decimal logarithm of two is a little less than 28 / 93. -/
theorem two_pow_le_ten_pow (twos tens : Nat) (h : 28 * twos ≤ 93 * tens) :
    2 ^ twos ≤ 10 ^ tens := by
  refine (Nat.pow_le_pow_iff_left (n := 93) (by decide)).1 ?_
  calc (2 ^ twos) ^ 93
    _ = (2 ^ 93) ^ twos := by rw [← Nat.pow_mul, ← Nat.pow_mul, Nat.mul_comm]
    _ ≤ (10 ^ 28) ^ twos := Nat.pow_le_pow_left (by decide) _
    _ = 10 ^ (28 * twos) := (Nat.pow_mul ..).symm
    _ ≤ 10 ^ (93 * tens) := Nat.pow_le_pow_right (by decide) h
    _ = (10 ^ tens) ^ 93 := by rw [← Nat.pow_mul, Nat.mul_comm]

/-- The decimal logarithm of two is a little more than 3 / 10. -/
theorem ten_pow_le_two_pow (tens twos : Nat) (h : 10 * tens ≤ 3 * twos) :
    10 ^ tens ≤ 2 ^ twos := by
  refine (Nat.pow_le_pow_iff_left (n := 10) (by decide)).1 ?_
  calc (10 ^ tens) ^ 10
    _ = 10 ^ (10 * tens) := by rw [← Nat.pow_mul, Nat.mul_comm]
    _ ≤ 10 ^ (3 * twos) := Nat.pow_le_pow_right (by decide) h
    _ = (10 ^ 3) ^ twos := Nat.pow_mul ..
    _ ≤ (2 ^ 10) ^ twos := Nat.pow_le_pow_left (by decide) _
    _ = (2 ^ twos) ^ 10 := by rw [← Nat.pow_mul, ← Nat.pow_mul, Nat.mul_comm]

theorem two_pow_eq_quarters {twos more : Nat} (h : twos = more + 1076) :
    2 ^ twos = 2 ^ more * (4 * Binary64.unitsPerOne) := by
  rw [h, show more + 1076 = more + 2 + 1074 from rfl, Binary64.two_pow_add_units, Nat.pow_add,
    Nat.mul_assoc]

/-- Nineteen digits below the coarsest grid, a step is at most a quarter of the distance
    from the float to the next one. -/
theorem finest_step {significand scale : Nat} (bound : significand < 2 ^ 53)
    (inRange : scale ≤ 2045) {exponent : Int}
    (h : exponent = coarseExponent significand scale - 19) :
    10 ^ exponent.toNat * (4 * Binary64.unitsPerOne) ≤ 2 ^ scale * 10 ^ (-exponent).toNat := by
  have small := Binary64.log2_le_of_lt bound
  rw [coarseExponent] at h
  rcases Nat.le_total 1076 scale with coarse | fine
  · have quarters := two_pow_eq_quarters (Nat.sub_add_cancel coarse).symm
    rw [quarters, Nat.mul_right_comm]
    refine Nat.mul_le_mul_right _ ?_
    rcases Int.lt_or_le exponent 0 with negative | nonnegative
    · rw [Int.toNat_of_nonpos (by omega), Nat.pow_zero]
      exact Nat.mul_pos (Nat.two_pow_pos _) (Nat.pow_pos (by decide))
    · rw [Int.toNat_of_nonpos (show -exponent ≤ 0 by omega), Nat.pow_zero, Nat.mul_one]
      exact ten_pow_le_two_pow _ _ (by omega)
  · obtain ⟨rest, hrest⟩ : ∃ rest, scale + rest = 0 + 1076 := ⟨1076 - scale, by omega⟩
    have quarters : 2 ^ scale * 2 ^ rest = 4 * Binary64.unitsPerOne := by
      rw [← Nat.pow_add, two_pow_eq_quarters hrest, Nat.pow_zero, Nat.one_mul]
    rw [Int.toNat_of_nonpos (show exponent ≤ 0 by omega), Nat.pow_zero, Nat.one_mul, ← quarters]
    exact Nat.mul_le_mul_left _ (two_pow_le_ten_pow _ _ (by omega))

theorem Interval.low_around {significand : Nat} (positive : 0 < significand) (scale : Nat) :
    (Interval.around significand scale).low + 2 ^ scale ≤
      (Interval.around significand scale).value := by
  have value : 2 * 2 ^ scale ≤ 4 * significand * 2 ^ scale := Nat.mul_le_mul_right _ (by omega)
  simp only [Interval.around]
  split <;> omega

/-- A point of the finest grid lies in the interval around a float. -/
theorem onGrid?_finest (tie : Tie) {significand scale : Nat} (positive : 0 < significand)
    (bound : significand < 2 ^ 53) (inRange : scale ≤ 2045) :
    ((Interval.around significand scale).onGrid? tie
      (coarseExponent significand scale - (19 : Nat))).isSome = true := by
  refine onGrid?_isSome ?_ ?_
  · have room := Nat.mul_le_mul_right
      (10 ^ (-(coarseExponent significand scale - (19 : Nat))).toNat)
      (Interval.low_around positive scale)
    rw [Nat.add_mul] at room
    exact Nat.le_trans (Nat.add_le_add_left (finest_step bound inRange rfl) _) room
  · exact Nat.lt_add_of_pos_right (Nat.mul_pos (by decide) (Nat.two_pow_pos _))

/-- The shortest decimal of a float lies in the interval around it. -/
theorem contains_shortest (tie : Tie) {significand scale : Nat} (positive : 0 < significand)
    (bound : significand < 2 ^ 53) (inRange : scale ≤ 2045) :
    (Interval.around significand scale).contains (shortest tie significand scale) = true := by
  have nineteen : 19 < 20 := by decide
  obtain ⟨last, digits, -, hgrid, found⟩ :=
    exists_search nineteen (onGrid?_finest tie positive bound inRange)
  rw [shortest, if_neg (by omega), found]
  exact holds_of_onGrid? hgrid

end ExprMachine.Decimal
