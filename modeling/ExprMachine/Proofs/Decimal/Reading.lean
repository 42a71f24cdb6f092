/-
  ExprMachine.Proofs.Decimal.Reading

  Decimal numerals in the interval around a float are read as that float, and no decimal
  numeral without a sign is read as a float with one.
-/
import ExprMachine.Decimal.Layout
import ExprMachine.Decimal.Reading
import ExprMachine.Proofs.Binary64.Positive
import ExprMachine.Proofs.Decimal.Shortest
import ExprMachine.Proofs.Text.Numerals

namespace ExprMachine.Decimal

open Binary64 (unitsPerOne unitsPerOne_pos)

-- ============================================================================
-- The nearest float
-- ============================================================================

-- The powers of ten below are bounded by their exponents, so that none is evaluated.

theorem unitsPerOne_le : ∃ tens ≤ 324, unitsPerOne ≤ 10 ^ tens := by
  have powers (twos tens : Nat) (h : twos = 1074) (enough : 28 * twos ≤ 93 * tens) :
      unitsPerOne ≤ 10 ^ tens := by
    rw [unitsPerOne, ← h]
    exact two_pow_le_ten_pow _ _ enough
  exact ⟨324, Nat.le_refl _, powers 1074 324 rfl (by decide)⟩

theorem largest_le {scale : Nat} (inRange : scale ≤ 2045) :
    ∃ tens ≤ 309, 2 ^ 53 * 2 ^ scale ≤ 10 ^ tens * unitsPerOne := by
  have powers (twos tens : Nat) (h : 53 + scale ≤ twos + 1074) (enough : 28 * twos ≤ 93 * tens) :
      2 ^ 53 * 2 ^ scale ≤ 10 ^ tens * unitsPerOne :=
    calc 2 ^ 53 * 2 ^ scale
      _ = 2 ^ (53 + scale) := (Nat.pow_add ..).symm
      _ ≤ 2 ^ (twos + 1074) := Nat.pow_le_pow_right (by decide) h
      _ = 2 ^ twos * unitsPerOne := Binary64.two_pow_add_units _
      _ ≤ 10 ^ tens * unitsPerOne := Nat.mul_le_mul_right _ (two_pow_le_ten_pow _ _ enough)
  exact ⟨309, Nat.le_refl _, powers 1024 309 (by omega) (by decide)⟩

/-- A numeral in the interval around a float is not settled by its places: it has at most
    310 digits before the point, and fewer than 325 zeros after it. -/
theorem places_of_holds {number places fraction significand scale : Nat}
    (least : 10 ^ (places - 1) ≤ number) (most : number < 10 ^ places)
    (positive : 0 < significand) (bound : significand < 2 ^ 53) (inRange : scale ≤ 2045)
    (held : (Interval.around significand scale).holds (10 ^ fraction) 4 (number * unitsPerOne) =
      true) : places ≤ fraction + 310 ∧ fraction < places + 325 := by
  obtain ⟨above, below, -, -⟩ := Binary64.near_of_holds held
  rw [Nat.mul_assoc] at above below
  have divisor : 0 < 10 ^ fraction := Nat.pow_pos (by decide)
  have step : 10 ^ fraction ≤ 2 ^ scale * 10 ^ fraction :=
    Nat.le_mul_of_pos_left _ (Nat.two_pow_pos _)
  have atLeast := Nat.mul_le_mul_right (2 ^ scale * 10 ^ fraction) positive
  have atMost := Nat.mul_le_mul_right (2 ^ scale * 10 ^ fraction) bound
  rw [Nat.succ_mul] at atMost
  constructor
  · obtain ⟨tens, fits, largest⟩ := largest_le inRange
    have scaled : number * unitsPerOne ≤ 10 ^ (tens + fraction) * unitsPerOne :=
      calc number * unitsPerOne
        _ ≤ 2 ^ 53 * (2 ^ scale * 10 ^ fraction) := by omega
        _ = 2 ^ 53 * 2 ^ scale * 10 ^ fraction := (Nat.mul_assoc ..).symm
        _ ≤ 10 ^ tens * unitsPerOne * 10 ^ fraction := Nat.mul_le_mul_right _ largest
        _ = 10 ^ (tens + fraction) * unitsPerOne := by rw [Nat.mul_right_comm, ← Nat.pow_add]
    have powers := Nat.le_trans least (Nat.le_of_mul_le_mul_right scaled unitsPerOne_pos)
    have := (Nat.pow_le_pow_iff_right (by decide)).1 powers
    omega
  · obtain ⟨tens, fits, units⟩ := unitsPerOne_le
    have powers : 10 ^ fraction < 10 ^ (places + tens + 1) :=
      calc 10 ^ fraction
        _ ≤ number * unitsPerOne * 2 := by omega
        _ < 10 ^ places * unitsPerOne * 2 :=
          Nat.mul_lt_mul_of_pos_right (Nat.mul_lt_mul_of_pos_right most unitsPerOne_pos) (by decide)
        _ ≤ 10 ^ places * 10 ^ tens * 10 :=
          Nat.mul_le_mul (Nat.mul_le_mul_left _ units) (by decide)
        _ = 10 ^ (places + tens + 1) := by rw [← Nat.pow_add, ← Nat.pow_succ]
    have := (Nat.pow_lt_pow_iff_right (by decide)).1 powers
    omega

/-- A numeral with a point that lies in the interval around a float is read as that float. -/
theorem read_nearest {number places fraction significand scale : Nat} (point : 0 < fraction)
    (some : 0 < number) (least : 10 ^ (places - 1) ≤ number) (most : number < 10 ^ places)
    (positive : 0 < significand) (bound : significand < 2 ^ 53)
    (normal : 0 < scale → 2 ^ 52 ≤ significand) (inRange : scale ≤ 2045)
    (held : (Interval.around significand scale).holds (10 ^ fraction) 4 (number * unitsPerOne) =
      true) :
    Binary64.read (nearest number places (0 - fraction)) = .finite false significand scale := by
  obtain ⟨notLarge, notSmall⟩ := places_of_holds least most positive bound inRange held
  rw [nearest, if_neg (by omega), if_neg (by omega), if_neg (by omega),
    decide_eq_true (by omega : (0 : Int) - fraction < 0),
    show ((0 : Int) - fraction).natAbs = fraction by omega]
  exact Binary64.read_ofScientific_of_holds some point positive bound normal inRange held

-- ============================================================================
-- Numerals with a point
-- ============================================================================

/-- Whether a part of a numeral is there and has digits only. -/
def IsPart (text : List Char) : Prop :=
  text ≠ [] ∧ ∀ c ∈ text, c.isDigit = true

theorem readMagnitude?_parts {whole fraction : List Char}
    (hwhole : ∀ c ∈ whole, c.isDigit = true) (hfraction : ∀ c ∈ fraction, c.isDigit = true)
    (nonempty : whole ++ fraction ≠ []) {number : Nat}
    (h : Text.readDigitsFrom? 10 0 (whole ++ fraction) = some number) :
    readMagnitude? (whole ++ '.' :: fraction) =
      some (nearest number ((whole ++ fraction).dropWhile (· = '0')).length
        (0 - fraction.length)) := by
  have takeWhole : (whole ++ '.' :: fraction).takeWhile Char.isDigit = whole := by
    rw [List.takeWhile_append_of_pos hwhole]
    exact List.append_nil _
  have dropWhole : (whole ++ '.' :: fraction).dropWhile Char.isDigit = '.' :: fraction := by
    rw [List.dropWhile_append_of_pos hwhole]
    rfl
  have takeFraction : fraction.takeWhile Char.isDigit = fraction := by
    simpa using @List.takeWhile_append_of_pos _ Char.isDigit fraction [] hfraction
  have dropFraction : fraction.dropWhile Char.isDigit = [] := by
    simpa using @List.dropWhile_append_of_pos _ Char.isDigit fraction [] hfraction
  have some : (whole ++ fraction).isEmpty = false := by simpa using nonempty
  simp [readMagnitude?, takeWhole, dropWhole, takeFraction, dropFraction, Text.readNumeral?,
    some, h, readExponent?]

theorem isPart_digitChars (decimal : Decimal) : IsPart decimal.digitChars :=
  ⟨Nat.toDigits_ne_nil, fun _ hc => Nat.isDigit_of_mem_toDigits (by decide) (by decide) hc⟩

theorem IsPart.append {first second : List Char} (hfirst : IsPart first)
    (hsecond : ∀ c ∈ second, c.isDigit = true) : IsPart (first ++ second) :=
  ⟨by simp [hfirst.1], fun c hc => (List.mem_append.1 hc).elim (hfirst.2 c) (hsecond c)⟩

theorem isDigit_of_mem_zeros {count : Nat} {c : Char} (h : c ∈ List.replicate count '0') :
    c.isDigit = true := by
  rw [List.eq_of_mem_replicate h]
  rfl

theorem readDigitsFrom?_digitChars (start : Nat) (decimal : Decimal) :
    Text.readDigitsFrom? 10 start decimal.digitChars =
      some (start * 10 ^ decimal.digitChars.length + decimal.digits) :=
  Text.readDigitsFrom?_toDigits (by decide) (by decide) start decimal.digits

theorem readDigitsFrom?_zeros (start count : Nat) :
    Text.readDigitsFrom? 10 start (List.replicate count '0') = some (start * 10 ^ count) :=
  Text.readDigitsFrom?_replicate_zero (by decide) start count

/-- Whether a numeral with digits on both sides of the point has the value of a decimal. -/
structure Denotes (decimal : Decimal) (whole fraction : List Char) (number : Nat) : Prop where
  before : IsPart whole
  after : IsPart fraction
  read : Text.readDigitsFrom? 10 0 (whole ++ fraction) = some number
  value : number * 10 ^ (-decimal.exponent).toNat =
    decimal.digits * 10 ^ decimal.exponent.toNat * 10 ^ fraction.length

/-- In a number that is smaller than one, zeros stand between the point and the digits. -/
theorem denotes_small {decimal : Decimal} (small : decimal.place ≤ 0) :
    Denotes decimal ['0'] (List.replicate (-decimal.place).toNat '0' ++ decimal.digitChars)
      decimal.digits where
  before := ⟨by simp, by simp⟩
  after := ⟨by simp [(isPart_digitChars decimal).1], fun c hc =>
    (List.mem_append.1 hc).elim isDigit_of_mem_zeros ((isPart_digitChars decimal).2 c)⟩
  read := by
    rw [show ['0'] = List.replicate 1 '0' from rfl, Text.readDigitsFrom?_append,
      readDigitsFrom?_zeros, Option.bind_some, Text.readDigitsFrom?_append,
      readDigitsFrom?_zeros, Option.bind_some, readDigitsFrom?_digitChars]
    simp only [Nat.zero_mul, Nat.zero_add]
  value := by
    rw [place] at small ⊢
    rw [List.length_append, List.length_replicate,
      Int.toNat_of_nonpos (show decimal.exponent ≤ 0 by omega), Nat.pow_zero, Nat.mul_one]
    congr 2
    omega

/-- A whole number is filled up with zeros to the point, and one stands after it. -/
theorem denotes_large {decimal : Decimal} (whole : 0 ≤ decimal.exponent) :
    Denotes decimal (decimal.digitChars ++ List.replicate decimal.exponent.toNat '0') ['0']
      (decimal.digits * 10 ^ decimal.exponent.toNat * 10) where
  before := (isPart_digitChars decimal).append fun _ hc => isDigit_of_mem_zeros hc
  after := ⟨by simp, by simp⟩
  read := by
    rw [show ['0'] = List.replicate 1 '0' from rfl, Text.readDigitsFrom?_append,
      Text.readDigitsFrom?_append, readDigitsFrom?_digitChars, Option.bind_some,
      readDigitsFrom?_zeros, Option.bind_some, readDigitsFrom?_zeros, Nat.zero_mul, Nat.zero_add,
      Nat.pow_one]
  value := by
    rw [Int.toNat_of_nonpos (show -decimal.exponent ≤ 0 by omega), Nat.pow_zero, Nat.mul_one,
      List.length_singleton, Nat.pow_one]

/-- The point may stand among the digits. -/
theorem denotes_inner {decimal : Decimal} (inner : 0 < decimal.place)
    (part : decimal.exponent < 0) :
    Denotes decimal (decimal.digitChars.take decimal.place.toNat)
      (decimal.digitChars.drop decimal.place.toNat) decimal.digits where
  before := by
    refine ⟨List.ne_nil_of_length_pos ?_, fun c hc =>
      (isPart_digitChars decimal).2 c (List.mem_of_mem_take hc)⟩
    rw [List.length_take]
    rw [place] at inner ⊢
    omega
  after := by
    refine ⟨List.ne_nil_of_length_pos ?_, fun c hc =>
      (isPart_digitChars decimal).2 c (List.mem_of_mem_drop hc)⟩
    rw [List.length_drop]
    rw [place] at inner ⊢
    omega
  read := by
    rw [List.take_append_drop, readDigitsFrom?_digitChars, Nat.zero_mul, Nat.zero_add]
  value := by
    rw [List.length_drop, Int.toNat_of_nonpos (show decimal.exponent ≤ 0 by omega), Nat.pow_zero,
      Nat.mul_one]
    rw [place] at inner ⊢
    congr 2
    omega

/-- A decimal in positional form is a numeral with its value. -/
theorem exists_positional (decimal : Decimal) :
    ∃ whole fraction number, positional true decimal.digitChars decimal.place =
      whole ++ '.' :: fraction ∧ Denotes decimal whole fraction number := by
  unfold positional
  split
  · rename_i small
    exact ⟨['0'], _, _, rfl, denotes_small small⟩
  split
  · rename_i whole
    rw [place] at whole
    refine ⟨_, ['0'], _, ?_, denotes_large (by omega)⟩
    rewrite [if_pos rfl, place, show (decimal.digitChars.length + decimal.exponent).toNat -
      decimal.digitChars.length = decimal.exponent.toNat by omega]
    rfl
  · rename_i inner part
    refine ⟨_, _, _, rfl, denotes_inner (by omega) ?_⟩
    rw [place] at part
    omega

-- ============================================================================
-- Texts of floats
-- ============================================================================

theorem mul_le_iff_of_ratio {point quarter quarter' bound : Nat} {point' : Nat}
    (positive : 0 < quarter) (positive' : 0 < quarter')
    (ratio : point * quarter' = point' * quarter) :
    bound * quarter ≤ point ↔ bound * quarter' ≤ point' := by
  rw [← Nat.mul_le_mul_right_iff positive', ratio, Nat.mul_right_comm,
    Nat.mul_le_mul_right_iff positive]

theorem le_mul_iff_of_ratio {point quarter quarter' bound : Nat} {point' : Nat}
    (positive : 0 < quarter) (positive' : 0 < quarter')
    (ratio : point * quarter' = point' * quarter) :
    point ≤ bound * quarter ↔ point' ≤ bound * quarter' := by
  rw [← Nat.mul_le_mul_right_iff positive', ratio, Nat.mul_right_comm,
    Nat.mul_le_mul_right_iff positive]

/-- Whether an interval holds a point does not depend on how the point is written. -/
theorem holds_congr {interval : Interval} {quarter step digits quarter' step' digits' : Nat}
    (positive : 0 < quarter) (positive' : 0 < quarter')
    (ratio : digits * step * quarter' = digits' * step' * quarter) :
    interval.holds quarter step digits = interval.holds quarter' step' digits' := by
  have low := @mul_le_iff_of_ratio _ _ _ interval.low _ positive positive' ratio
  have high := @le_mul_iff_of_ratio _ _ _ interval.high _ positive positive' ratio
  have low' := not_congr (@le_mul_iff_of_ratio _ _ _ interval.low _ positive positive' ratio)
  have high' := not_congr (@mul_le_iff_of_ratio _ _ _ interval.high _ positive positive' ratio)
  simp only [Nat.not_le] at low' high'
  simp only [Interval.holds, low, high, low', high']

theorem pos_of_holds {number quarter significand scale : Nat} (divisor : 0 < quarter)
    (positive : 0 < significand)
    (held : (Interval.around significand scale).holds quarter 4 number = true) : 0 < number := by
  have above := (Binary64.near_of_holds held).above
  have step : 0 < 2 ^ scale * quarter := Nat.mul_pos (Nat.two_pow_pos _) divisor
  have atLeast := Nat.mul_le_mul_right (2 ^ scale * quarter) positive
  rw [Nat.mul_assoc] at above
  omega

/-- An interval holds the numerals of its decimals. -/
theorem Denotes.holds {decimal : Decimal} {whole fraction : List Char} {number : Nat}
    {interval : Interval} (h : Denotes decimal whole fraction number)
    (contained : interval.contains decimal = true) :
    interval.holds (10 ^ fraction.length) 4 (number * unitsPerOne) = true := by
  rw [← contained, Interval.contains]
  refine holds_congr (Nat.pow_pos (by decide)) (Nat.pow_pos (by decide)) ?_
  calc number * unitsPerOne * 4 * 10 ^ (-decimal.exponent).toNat
    _ = number * 10 ^ (-decimal.exponent).toNat * (4 * unitsPerOne) := by
      rw [Nat.mul_assoc number, Nat.mul_right_comm, Nat.mul_comm unitsPerOne]
    _ = decimal.digits * 10 ^ decimal.exponent.toNat * 10 ^ fraction.length *
        (4 * unitsPerOne) := by rw [h.value]
    _ = decimal.digits * (10 ^ decimal.exponent.toNat * (4 * unitsPerOne)) *
        10 ^ fraction.length := by
      rw [Nat.mul_right_comm, ← Nat.mul_assoc decimal.digits]

/-- A numeral of the shortest decimal of a float is read as that float. -/
theorem Denotes.read_nearest {tie : Tie} {significand scale : Nat} {whole fraction : List Char}
    {number : Nat} (h : Denotes (shortest tie significand scale) whole fraction number)
    (bound : significand < 2 ^ 53) (normal : 0 < scale → 2 ^ 52 ≤ significand)
    (inRange : scale ≤ 2045) :
    Binary64.read (nearest number ((whole ++ fraction).dropWhile (· = '0')).length
      (0 - fraction.length)) = .finite false significand scale := by
  rcases Nat.eq_zero_or_pos significand with rfl | positive
  · obtain rfl : scale = 0 := by omega
    obtain rfl : number = 0 := by simpa [shortest] using h.value
    rw [nearest, if_pos rfl]
    exact Binary64.read_zero
  · have held := h.holds (contains_shortest tie positive bound inRange)
    have some := Nat.pos_of_mul_pos_right (pos_of_holds (Nat.pow_pos (by decide)) positive held)
    obtain ⟨least, most⟩ := Text.places_of_readDigitsFrom? h.read some
    exact Decimal.read_nearest (List.length_pos_iff.2 h.after.1) some least most positive bound
      normal inRange held

/-- A float is read back from its text in positional form. -/
theorem readMagnitude?_magnitude {layout : Layout} {value : Float}
    {significand scale : Nat} (positional : ∀ place, layout.isPositional place = true)
    (pointed : ∀ place, layout.showsPoint place = true)
    (h : Binary64.read value = .finite false significand scale) :
    ∃ whole fraction, layout.magnitude significand scale = whole ++ '.' :: fraction ∧
      IsPart whole ∧ IsPart fraction ∧
      readMagnitude? (whole ++ '.' :: fraction) = some value := by
  obtain ⟨bound, normal, inRange⟩ := Binary64.bounds_of_read h
  obtain ⟨whole, fraction, number, htext, denotes⟩ :=
    exists_positional (shortest layout.tie significand scale)
  refine ⟨whole, fraction, ?_, denotes.before, denotes.after, ?_⟩
  · rw [Layout.magnitude, if_pos (positional _), pointed, htext]
  · rw [readMagnitude?_parts denotes.before.2 denotes.after.2 (by simp [denotes.before.1])
      denotes.read]
    exact congrArg some (Binary64.eq_of_read (denotes.read_nearest bound normal inRange) h)

-- ============================================================================
-- Floats without a minus sign
-- ============================================================================

open Binary64 (isPositive)

theorem isPositive_nearest (digits places : Nat) (exponent : Int) :
    isPositive (nearest digits places exponent) = true := by
  unfold nearest
  split
  · exact Binary64.isPositive_zero
  split
  · decide
  split
  · exact Binary64.isPositive_zero
  · exact Binary64.isPositive_ofScientific ..

theorem isPositive_of_readMagnitude? {text : List Char} {value : Float}
    (h : readMagnitude? text = some value) : isPositive value = true := by
  simp only [readMagnitude?, Option.bind_eq_bind, Option.bind_eq_some_iff, Option.pure_def,
    Option.some.injEq] at h
  obtain ⟨number, -, exponent, -, rfl⟩ := h
  exact isPositive_nearest ..

end ExprMachine.Decimal
