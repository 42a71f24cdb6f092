/-
  ExprMachine.Proofs.Decimal.Whole

  Which floats are written without a point where whole numbers of more than sixteen places
  are. The shortest decimal of a float lies on the same side of another float as the float
  itself, and a float from 10 ^ 16 on has one that is whole and of seventeen places or more.
-/
import ExprMachine.Proofs.Decimal.Reading

namespace ExprMachine.Decimal

open Binary64 (unitsPerOne unitsPerOne_pos size Near)

-- ============================================================================
-- Sides of a float
-- ============================================================================

section Sides

theorem two_mul_two_pow_le {fine coarse : Nat} (h : fine < coarse) : 2 * 2 ^ fine ≤ 2 ^ coarse := by
  rw [← Nat.pow_succ']
  exact Nat.pow_le_pow_right (by decide) h

variable {number significand scale bound power : Nat}

/-- What is near a smaller float is smaller than a float. -/
theorem lt_of_near (near : Near number 1 significand scale)
    (normal : 0 < scale → 2 ^ 52 ≤ significand) (most : bound < 2 ^ 53)
    (less : size significand scale < bound * 2 ^ power) : number < bound * 2 ^ power := by
  have step := Nat.two_pow_pos scale
  have below := near.below
  rw [Nat.mul_one, Nat.mul_assoc] at below
  unfold size at less
  have coarse : scale ≤ power := by
    refine Nat.le_of_not_lt fun finer => ?_
    have atLeast := Nat.mul_le_mul (normal (by omega)) (two_mul_two_pow_le finer)
    have atMost := Nat.mul_le_mul_right (2 ^ power) (Nat.le_of_lt most)
    omega
  obtain ⟨more, rfl⟩ := Nat.exists_eq_add_of_le coarse
  rw [Nat.pow_add, Nat.mul_comm (2 ^ scale), ← Nat.mul_assoc] at less ⊢
  have next := Nat.mul_le_mul_right (2 ^ scale) (Nat.lt_of_mul_lt_mul_right less)
  rw [Nat.succ_mul] at next
  omega

/-- What is near a larger float is larger than a float. -/
theorem gt_of_near (near : Near number 1 significand scale) (small : significand < 2 ^ 53)
    (normal : 0 < scale → 2 ^ 52 ≤ significand) (least : 2 ^ 52 ≤ bound)
    (most : bound + 1 < 2 ^ 53) (more : bound * 2 ^ power < size significand scale) :
    bound * 2 ^ power < number := by
  have step := Nat.two_pow_pos scale
  have above := near.above
  rw [Nat.mul_one, Nat.mul_assoc] at above
  unfold size at more
  rcases Nat.lt_trichotomy scale power with finer | rfl | coarser
  · have atMost := Nat.mul_le_mul_right (2 ^ scale) (Nat.le_of_lt small)
    have atLeast := Nat.mul_le_mul least (two_mul_two_pow_le finer)
    omega
  · have next := Nat.mul_le_mul_right (2 ^ scale) (Nat.lt_of_mul_lt_mul_right more)
    rw [Nat.succ_mul] at next
    omega
  · have atLeast := Nat.mul_le_mul_right (2 ^ scale) (normal (by omega))
    have atMost := Nat.mul_le_mul_left bound (two_mul_two_pow_le coarser)
    have room := Nat.mul_le_mul_right (2 ^ scale) (show bound ≤ 2 ^ 53 - 2 by omega)
    rw [Nat.mul_left_comm] at atMost
    omega

/-- A float has one significand and one scale. -/
theorem eq_of_size_eq (small : significand < 2 ^ 53) (normal : 0 < scale → 2 ^ 52 ≤ significand)
    (least : 2 ^ 52 ≤ bound) (most : bound < 2 ^ 53)
    (same : size significand scale = bound * 2 ^ power) : significand = bound ∧ scale = power := by
  unfold size at same
  rcases Nat.lt_trichotomy scale power with finer | rfl | coarser
  · have atMost := Nat.mul_lt_mul_of_pos_right small (Nat.two_pow_pos scale)
    have atLeast := Nat.mul_le_mul least (two_mul_two_pow_le finer)
    omega
  · exact ⟨Nat.eq_of_mul_eq_mul_right (Nat.two_pow_pos _) same, rfl⟩
  · have atLeast := Nat.mul_le_mul (normal (by omega)) (two_mul_two_pow_le coarser)
    have atMost := Nat.mul_lt_mul_of_pos_right most (Nat.two_pow_pos power)
    omega

end Sides

-- ============================================================================
-- Whole decimals
-- ============================================================================

/-- The number that a decimal without places behind the point makes. -/
def wholeNumber (decimal : Decimal) : Nat :=
  decimal.digits * 10 ^ decimal.exponent.toNat

/-- Zeros behind a number multiply it by ten. -/
theorem toDigits_mul_ten_pow {number : Nat} (positive : 0 < number) (zeros : Nat) :
    Nat.toDigits 10 (number * 10 ^ zeros) =
      Nat.toDigits 10 number ++ List.replicate zeros '0' := by
  induction zeros with
  | zero => simp
  | succ zeros ih =>
    have more : 0 < number * 10 ^ zeros := Nat.mul_pos positive (Nat.pow_pos (by decide))
    have digit := @Nat.toDigits_append_toDigits 10 (number * 10 ^ zeros) 0 (by decide) more
      (by decide)
    rw [Nat.add_zero, Nat.mul_comm 10, Nat.mul_assoc, ← Nat.pow_succ, Nat.toDigits_zero] at digit
    rw [← digit, ih, List.append_assoc, ← List.replicate_succ']

section Layout

variable {decimal : Decimal} {showsPoint : Bool}

theorem toDigits_wholeNumber (positive : 0 < decimal.digits) :
    Nat.toDigits 10 decimal.wholeNumber =
      decimal.digitChars ++ List.replicate decimal.exponent.toNat '0' :=
  toDigits_mul_ten_pow positive _

/-- The places of a whole decimal are the digits of its number. -/
theorem place_le_iff (positive : 0 < decimal.digits) (whole : 0 ≤ decimal.exponent) :
    decimal.place ≤ 16 ↔ decimal.wholeNumber < 10 ^ 16 := by
  have length := congrArg List.length (toDigits_wholeNumber positive)
  rw [List.length_append, List.length_replicate] at length
  rw [← Nat.length_toDigits_le_iff (by decide) (by decide), length, place]
  omega

theorem positional_whole (whole : 0 ≤ decimal.exponent) :
    positional showsPoint decimal.digitChars decimal.place =
      decimal.digitChars ++ List.replicate decimal.exponent.toNat '0' ++
        (if showsPoint then ['.', '0'] else []) := by
  have some : 0 < decimal.digitChars.length := Nat.length_toDigits_pos
  rw [positional, place, if_neg (by omega), if_pos (by omega)]
  congr 4
  omega

/-- Digits have a point among them, before them or behind them. -/
theorem point_mem_positional (shown : decimal.exponent < 0 ∨ showsPoint = true) :
    '.' ∈ positional showsPoint decimal.digitChars decimal.place := by
  unfold positional
  split
  · simp
  split
  · rename_i whole
    rcases shown with part | shown
    · rw [place] at whole
      omega
    · simp [shown]
  · simp

end Layout

-- ============================================================================
-- Shortest decimals of large floats
-- ============================================================================

section Large

theorem value_around_whole {significand scale : Nat} (coarse : 1074 ≤ scale) :
    (Interval.around significand scale).value =
      significand * 2 ^ (scale - 1074) * (4 * unitsPerOne) := by
  have power : 2 ^ scale = 2 ^ (scale - 1074) * unitsPerOne := by
    rw [← Binary64.two_pow_add_units, Nat.sub_add_cancel coarse]
  have unfolded : (Interval.around significand scale).value = 4 * significand * 2 ^ scale := rfl
  generalize unitsPerOne = units at power ⊢
  rw [unfolded, power, Nat.mul_comm 4, Nat.mul_mul_mul_comm]

variable {tie : Tie} {significand scale : Nat} (bound : significand < 2 ^ 53)
  (normal : 2 ^ 52 ≤ significand) (coarse : 1075 ≤ scale) (inRange : scale ≤ 2045)

include normal coarse in
/-- A float of whole units is on the grid of the whole numbers. -/
theorem onGrid?_whole : ((Interval.around significand scale).onGrid? tie 0).isSome = true := by
  have units : 1074 ≤ scale := by omega
  have whole : 4 * unitsPerOne ∣ (Interval.around significand scale).value :=
    ⟨_, (value_around_whole units).trans (Nat.mul_comm ..)⟩
  have positive : 0 < significand := Nat.lt_of_lt_of_le (Nat.two_pow_pos 52) normal
  have step := Nat.two_pow_pos scale
  have low := Interval.low_around positive scale
  have high : (Interval.around significand scale).value + 2 * 2 ^ scale =
    (Interval.around significand scale).high := rfl
  refine onGrid?_isSome_of_holds ?_
  rw [Int.neg_zero, Int.toNat_zero, Nat.pow_zero, Nat.mul_one, Nat.one_mul, Interval.holds,
    Nat.div_mul_cancel whole, Nat.mul_one, Nat.mul_one]
  split <;> simp only [Bool.and_eq_true, decide_eq_true_eq] <;> omega

include bound normal coarse inRange in
/-- The shortest decimal of a float from 2 ^ 53 on is whole. -/
theorem exponent_shortest_nonneg : 0 ≤ (shortest tie significand scale).exponent := by
  have positive : 0 < significand := Nat.lt_of_lt_of_le (Nat.two_pow_pos 52) normal
  have places : 52 ≤ significand.log2 := (Nat.le_log2 (by omega)).2 normal
  have start : 0 ≤ coarseExponent significand scale := by
    unfold coarseExponent
    omega
  rw [shortest, if_neg (by omega)]
  rcases Int.lt_or_le (coarseExponent significand scale) 20 with few | many
  · obtain ⟨finer, hfiner⟩ := Int.eq_ofNat_of_zero_le start
    have less : finer < 20 := by omega
    have onWhole : ((Interval.around significand scale).onGrid? tie
        (coarseExponent significand scale - finer)).isSome = true := by
      rw [hfiner, Int.sub_self]
      exact onGrid?_whole normal coarse
    obtain ⟨last, digits, le, -, found⟩ := exists_search less onWhole
    rw [found]
    dsimp only
    omega
  · have less : 19 < 20 := by decide
    obtain ⟨last, digits, le, -, found⟩ :=
      exists_search less (onGrid?_finest tie positive bound inRange)
    rw [found]
    dsimp only
    omega

end Large

section Near

variable {tie : Tie} {significand scale : Nat} (positive : 0 < significand)
  (bound : significand < 2 ^ 53) (normal : 0 < scale → 2 ^ 52 ≤ significand)
  (inRange : scale ≤ 2045)

include positive bound inRange in
/-- The number that the shortest decimal makes is near the float, if it is whole. -/
theorem near_wholeNumber (whole : 0 ≤ (shortest tie significand scale).exponent) :
    Near ((shortest tie significand scale).wholeNumber * unitsPerOne) 1 significand scale := by
  have held := contains_shortest tie positive bound inRange
  generalize shortest tie significand scale = decimal at whole held ⊢
  rw [Interval.contains, Int.toNat_of_nonpos (Int.neg_nonpos_of_nonneg whole), Nat.pow_zero] at held
  refine Binary64.near_of_holds (held ▸ holds_congr Nat.one_pos Nat.one_pos ?_)
  rw [wholeNumber]
  generalize unitsPerOne = units
  rw [Nat.mul_comm 4, ← Nat.mul_assoc, ← Nat.mul_assoc]

include positive bound inRange in
theorem digits_shortest_pos (whole : 0 ≤ (shortest tie significand scale).exponent) :
    0 < (shortest tie significand scale).digits := by
  refine Nat.pos_of_ne_zero fun zero => ?_
  have above := (near_wholeNumber positive bound inRange whole).above
  have step := Nat.two_pow_pos scale
  have atLeast := Nat.mul_le_mul_right (2 ^ scale) positive
  rw [wholeNumber, zero, Nat.zero_mul, Nat.zero_mul, Nat.mul_one, Nat.mul_assoc] at above
  omega

variable {fraction twos limit : Nat} (least : 2 ^ 52 ≤ fraction) (most : fraction + 1 < 2 ^ 53)
  (whole : 0 ≤ (shortest tie significand scale).exponent)

include positive bound normal inRange least most whole in
/-- A whole decimal lies on the side of another whole float that its own float lies on. -/
theorem wholeNumber_side (limited : fraction * 2 ^ twos = limit) :
    (size significand scale < limit * unitsPerOne ∧
        (shortest tie significand scale).wholeNumber < limit) ∨
      (limit * unitsPerOne < size significand scale ∧
        limit < (shortest tie significand scale).wholeNumber) ∨
      (size significand scale = limit * unitsPerOne ∧
        significand = fraction ∧ scale = twos + 1074) := by
  have near := near_wholeNumber positive bound inRange whole
  have units : fraction * 2 ^ (twos + 1074) = limit * unitsPerOne := by
    rw [Binary64.two_pow_add_units, ← Nat.mul_assoc, limited]
  generalize twos + 1074 = power at units ⊢
  rw [← units]
  rcases Nat.lt_trichotomy (size significand scale) (fraction * 2 ^ power) with less | same | more
  · have below := lt_of_near near normal (by omega) less
    rw [units] at below
    exact .inl ⟨less, Nat.lt_of_mul_lt_mul_right below⟩
  · exact .inr (.inr ⟨same, eq_of_size_eq bound normal least (by omega) same⟩)
  · have above := gt_of_near near bound normal least most more
    rw [units] at above
    exact .inr (.inl ⟨more, Nat.lt_of_mul_lt_mul_right above⟩)

end Near

section Thresholds

variable {tie : Tie} {significand scale : Nat} (positive : 0 < significand)
  (bound : significand < 2 ^ 53) (normal : 0 < scale → 2 ^ 52 ≤ significand)
  (inRange : scale ≤ 2045) (whole : 0 ≤ (shortest tie significand scale).exponent)

theorem shortest_ten_pow_16 (tie : Tie) :
    shortest tie (5 * 10 ^ 15) (1 + 1074) = ⟨1, 16⟩ := by
  cases tie <;> decide +kernel

theorem shortest_two_pow_63 (tie : Tie) :
    shortest tie (2 ^ 52) (11 + 1074) = ⟨9223372036854776, 3⟩ := by
  cases tie <;> decide +kernel

include positive bound normal inRange whole in
theorem wholeNumber_lt_ten_pow_16 :
    (shortest tie significand scale).wholeNumber < 10 ^ 16 ↔
      size significand scale < 10 ^ 16 * unitsPerOne := by
  rcases wholeNumber_side positive bound normal inRange (by decide) (by decide) whole
    (show 5 * 10 ^ 15 * 2 ^ 1 = 10 ^ 16 by decide) with
    ⟨less, below⟩ | ⟨more, above⟩ | ⟨same, rfl, rfl⟩
  · exact iff_of_true below less
  · exact iff_of_false (Nat.lt_asymm above) (Nat.lt_asymm more)
  · rw [shortest_ten_pow_16]
    exact iff_of_false (by decide) (Nat.not_lt_of_le (Nat.le_of_eq same.symm))

include positive bound normal inRange whole in
/-- The decimal of 2 ^ 63 is larger than 2 ^ 63. -/
theorem wholeNumber_le_two_pow_63 :
    (shortest tie significand scale).wholeNumber ≤ 2 ^ 63 ↔
      size significand scale < 2 ^ 63 * unitsPerOne := by
  rcases wholeNumber_side positive bound normal inRange (by decide) (by decide) whole
    (show 2 ^ 52 * 2 ^ 11 = 2 ^ 63 by decide) with
    ⟨less, below⟩ | ⟨more, above⟩ | ⟨same, rfl, rfl⟩
  · exact iff_of_true (Nat.le_of_lt below) less
  · exact iff_of_false (Nat.not_le_of_lt above) (Nat.lt_asymm more)
  · rw [shortest_two_pow_63]
    exact iff_of_false (by decide) (Nat.not_lt_of_le (Nat.le_of_eq same.symm))

include positive bound normal inRange whole in
theorem wholeNumber_ne_two_pow_63 : (shortest tie significand scale).wholeNumber ≠ 2 ^ 63 := by
  rcases wholeNumber_side positive bound normal inRange (by decide) (by decide) whole
    (show 2 ^ 52 * 2 ^ 11 = 2 ^ 63 by decide) with
    ⟨-, below⟩ | ⟨-, above⟩ | ⟨-, rfl, rfl⟩
  · exact Nat.ne_of_lt below
  · exact Nat.ne_of_gt above
  · rw [shortest_two_pow_63]
    decide

end Thresholds

-- ============================================================================
-- Points from sixteen places on
-- ============================================================================

/-- The digits of a magnitude with the point among them, or behind them up to sixteen
    places. -/
def sixteenPlaces (decimal : Decimal) : List Char :=
  positional (decide (decimal.place ≤ 16)) decimal.digitChars decimal.place

section Points

variable {tie : Tie} {significand scale : Nat} (bound : significand < 2 ^ 53)
  (normal : 0 < scale → 2 ^ 52 ≤ significand) (inRange : scale ≤ 2045)

include bound in
/-- Floats with parts of a unit are smaller than 10 ^ 16. -/
theorem coarse_of_large (large : ¬size significand scale < 10 ^ 16 * unitsPerOne) :
    1075 ≤ scale := by
  refine Nat.le_of_not_lt fun fine => large ?_
  have step : 2 ^ scale ≤ unitsPerOne := by
    have power := Nat.pow_le_pow_right Nat.two_pos (Nat.le_of_lt_succ fine)
    rwa [← unitsPerOne] at power
  calc size significand scale
    _ < 2 ^ 53 * 2 ^ scale := Nat.mul_lt_mul_of_pos_right bound (Nat.two_pow_pos _)
    _ ≤ 2 ^ 53 * unitsPerOne := Nat.mul_le_mul_left _ step
    _ ≤ 10 ^ 16 * unitsPerOne := Nat.mul_le_mul_right _ (by decide)

include bound normal inRange in
theorem whole_of_large (large : ¬size significand scale < 10 ^ 16 * unitsPerOne) :
    0 < significand ∧ 0 ≤ (shortest tie significand scale).exponent := by
  have coarse := coarse_of_large bound large
  have least := normal (by omega)
  exact ⟨by omega, exponent_shortest_nonneg bound least coarse inRange⟩

include bound normal inRange in
/-- A float from 10 ^ 16 on is written like the number that its decimal makes. -/
theorem sixteenPlaces_of_large (large : ¬size significand scale < 10 ^ 16 * unitsPerOne) :
    sixteenPlaces (shortest tie significand scale) =
      Nat.toDigits 10 (shortest tie significand scale).wholeNumber := by
  obtain ⟨positive, whole⟩ := @whole_of_large tie _ _ bound normal inRange large
  have digits := digits_shortest_pos positive bound inRange whole
  have places : ¬(shortest tie significand scale).place ≤ 16 := by
    rwa [place_le_iff digits whole,
      wholeNumber_lt_ten_pow_16 positive bound normal inRange whole]
  rw [sixteenPlaces, positional_whole whole, decide_eq_false places, toDigits_wholeNumber digits]
  exact List.append_nil _

include bound normal inRange in
/-- The floats that are smaller than 10 ^ 16 are those that have a point. -/
theorem point_mem_sixteenPlaces :
    '.' ∈ sixteenPlaces (shortest tie significand scale) ↔
      size significand scale < 10 ^ 16 * unitsPerOne := by
  constructor
  · intro point
    by_contra large
    rw [sixteenPlaces_of_large bound normal inRange large] at point
    exact absurd (Nat.isDigit_of_mem_toDigits (by decide) (by decide) point) (by decide)
  · intro less
    refine point_mem_positional ?_
    rcases Int.lt_or_le (shortest tie significand scale).exponent 0 with part | whole
    · exact .inl part
    refine .inr (decide_eq_true ?_)
    rcases Nat.eq_zero_or_pos significand with rfl | positive
    · exact (by decide : (⟨0, 0⟩ : Decimal).place ≤ 16)
    · rwa [place_le_iff (digits_shortest_pos positive bound inRange whole) whole,
        wholeNumber_lt_ten_pow_16 positive bound normal inRange whole]

end Points

end ExprMachine.Decimal
