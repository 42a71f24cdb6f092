/-
  ExprMachine.Proofs.Decimal.Range

  Which numerals are read as finite floats: a decimal one just when its value is less than
  half a step beyond the largest float, and one in another base always, since its digits
  before the point fit 64 bits and those after it add up to less than a fixed amount.
-/
import ExprMachine.Proofs.Binary64.Units
import ExprMachine.Proofs.Decimal.Reading

namespace ExprMachine.Decimal

open Binary64 (unitsPerOne unitsPerOne_pos isFinite overflow HasUnits IsShare)

-- ============================================================================
-- Decimal numerals
-- ============================================================================

/-- The least number that is rounded to the infinity: it is as far from the largest finite
    float as from the power of two after it. -/
def limit : Nat := 2 ^ 1024 - 2 ^ 970

theorem limit_mul_units : limit * unitsPerOne = overflow := by
  decide +kernel

theorem limit_pos : 0 < limit := by
  have powers (less more : Nat) (hless : less = 970) (hmore : more = 1024) : 0 < limit := by
    rw [limit, ← hless, ← hmore]
    exact Nat.sub_pos_of_lt (Nat.pow_lt_pow_right (by decide) (by omega))
  exact powers 970 1024 rfl rfl

theorem limit_le : ∃ tens ≤ 400, limit ≤ 10 ^ tens := by
  have powers (twos tens : Nat) (h : twos = 1024) (enough : 28 * twos ≤ 93 * tens) :
      limit ≤ 10 ^ tens := by
    rw [limit, ← h]
    exact Nat.le_trans (Nat.sub_le _ _) (two_pow_le_ten_pow _ _ enough)
  exact ⟨310, by decide, powers 1024 310 rfl (by decide)⟩

/-- A number with so many digits after its point is finite as a float just when it is below
    the limit. -/
theorem isFinite_nearest {number places fraction : Nat}
    (bounds : 0 < number → 10 ^ (places - 1) ≤ number ∧ number < 10 ^ places) :
    isFinite (nearest number places (0 - fraction)) = true ↔
      number < limit * 10 ^ fraction := by
  have divisor : 0 < 10 ^ fraction := Nat.pow_pos (by decide)
  rcases Nat.eq_zero_or_pos number with rfl | some
  · exact iff_of_true (by rw [nearest, if_pos rfl]; exact Binary64.isFinite_zero)
      (Nat.mul_pos limit_pos divisor)
  obtain ⟨least, most⟩ := bounds some
  unfold nearest
  rw [if_neg (by omega)]
  -- Far too many digits before the point.
  by_cases large : 400 < (places : Int) + (0 - fraction)
  · rw [if_pos large]
    refine iff_of_false (by decide) (Nat.not_lt.2 ?_)
    obtain ⟨tens, few, bound⟩ := limit_le
    calc limit * 10 ^ fraction
      _ ≤ 10 ^ tens * 10 ^ fraction := Nat.mul_le_mul_right _ bound
      _ = 10 ^ (tens + fraction) := (Nat.pow_add ..).symm
      _ ≤ 10 ^ (places - 1) := Nat.pow_le_pow_right (by decide) (by omega)
      _ ≤ number := least
  rw [if_neg large]
  -- Far too many zeros after it.
  by_cases small : (places : Int) + (0 - fraction) < -400
  · rw [if_pos small]
    refine iff_of_true Binary64.isFinite_zero ?_
    calc number
      _ < 10 ^ places := most
      _ ≤ 10 ^ fraction := Nat.pow_le_pow_right (by decide) (by omega)
      _ ≤ limit * 10 ^ fraction := Nat.le_mul_of_pos_left _ limit_pos
  rw [if_neg small]
  -- All other numbers are rounded from their exact value.
  have scaled : number < limit * 10 ^ fraction ↔
      number * unitsPerOne < overflow * 10 ^ fraction := by
    rw [← limit_mul_units, Nat.mul_right_comm, Nat.mul_lt_mul_right unitsPerOne_pos]
  rw [scaled]
  rcases Nat.eq_zero_or_pos fraction with rfl | point
  · obtain ⟨target, atTarget, hfloat⟩ :=
      Binary64.exists_rounded_ofScientific some (Nat.zero_le 1023)
    have finite := Binary64.isFinite_rounded_iff unitsPerOne_pos atTarget
    rw [← hfloat, Nat.mul_lt_mul_right unitsPerOne_pos] at finite
    rw [Nat.pow_zero, Nat.mul_one] at finite ⊢
    exact finite
  · have log : places - 1 ≤ number.log2 :=
      (Nat.le_log2 (by omega)).2
        (Nat.le_trans (Nat.pow_le_pow_left (by decide) _) least)
    obtain ⟨target, atTarget, hfloat⟩ :=
      Binary64.exists_rounded_ofScientific_point some point (by omega)
    have finite := Binary64.isFinite_rounded_iff divisor atTarget
    rw [← hfloat] at finite
    rw [decide_eq_true (by omega : (0 : Int) - fraction < 0),
      show ((0 : Int) - fraction).natAbs = fraction by omega]
    exact finite

/-- A decimal numeral with a point is read as a float that is finite just when the value of
    the numeral is below the limit. -/
theorem isFinite_readMagnitude? {whole fraction : List Char}
    (hwhole : ∀ c ∈ whole, c.isDigit = true) (hfraction : ∀ c ∈ fraction, c.isDigit = true)
    (nonempty : whole ++ fraction ≠ []) :
    ∃ value, readMagnitude? (whole ++ '.' :: fraction) = some value ∧
      (isFinite value = true ↔
        Nat.ofDigitChars 10 (whole ++ fraction) 0 < limit * 10 ^ fraction.length) := by
  have digits : ∀ c ∈ whole ++ fraction, c.isDigit = true :=
    List.forall_mem_append.2 ⟨hwhole, hfraction⟩
  have read := Text.readDigitsFrom?_decimal digits 0
  exact ⟨_, readMagnitude?_parts hwhole hfraction nonempty read,
    isFinite_nearest (Text.places_of_readDigitsFrom? read)⟩

/-- What is read from digits with points among them is one run of digits, a point and
    another run. -/
theorem exists_parts_of_readMagnitude? {text : List Char} {value : Float}
    (decimal : ∀ c ∈ text, c.isDigit = true ∨ c = '.') (point : '.' ∈ text)
    (h : readMagnitude? text = some value) :
    ∃ whole fraction, text = whole ++ '.' :: fraction ∧ whole ++ fraction ≠ [] ∧
      (∀ c ∈ whole, c.isDigit = true) ∧ ∀ c ∈ fraction, c.isDigit = true := by
  have digits {run : List Char} : ∀ c ∈ run.takeWhile Char.isDigit, c.isDigit = true :=
    List.all_eq_true.1 List.all_takeWhile
  -- What comes after a run of digits starts with a point.
  have after {run : List Char} (part : ∀ c ∈ run, c.isDigit = true ∨ c = '.') :
      run.dropWhile Char.isDigit = [] ∨ ∃ more, run.dropWhile Char.isDigit = '.' :: more := by
    cases hdrop : run.dropWhile Char.isDigit with
    | nil => exact .inl rfl
    | cons c more =>
      have stop := List.head?_dropWhile_not Char.isDigit run
      rw [hdrop] at stop
      have mem : c ∈ run.dropWhile Char.isDigit := by rw [hdrop]; exact List.mem_cons_self
      rcases part c ((List.dropWhile_sublist _).subset mem) with digit | rfl
      · simp [digit] at stop
      · exact .inr ⟨more, rfl⟩
  have parts := List.takeWhile_append_dropWhile (p := Char.isDigit) (l := text)
  rcases after decimal with none | ⟨more, hmore⟩
  · rw [none, List.append_nil] at parts
    rw [← parts] at point
    exact absurd (digits _ point) (by decide)
  rw [hmore] at parts
  have decimalMore : ∀ c ∈ more, c.isDigit = true ∨ c = '.' := by
    intro c mem
    rw [← parts] at decimal
    exact decimal c (List.mem_append_right _ (List.mem_cons_of_mem _ mem))
  simp only [readMagnitude?, hmore, Option.bind_eq_bind, Option.bind_eq_some_iff] at h
  obtain ⟨number, hnumber, exponent, hexponent, -⟩ := h
  have whole : more.takeWhile Char.isDigit = more := by
    rcases after decimalMore with none | ⟨rest, hrest⟩
    · have := List.takeWhile_append_dropWhile (p := Char.isDigit) (l := more)
      rwa [none, List.append_nil] at this
    -- A second point starts no exponent.
    · rw [hrest] at hexponent
      cases hexponent
  rw [whole] at hnumber
  refine ⟨_, more, parts.symm, ?_, digits, ?_⟩
  · intro empty
    rw [empty] at hnumber
    cases hnumber
  · rw [← whole]
    exact digits

-- ============================================================================
-- Numerals in other bases
-- ============================================================================

/-- The digits and the bases of numerals are exact as floats. -/
theorem hasUnits_ofNat {number : Nat} (small : number ≤ 16) :
    HasUnits (Float.ofNat number) (number * unitsPerOne) := by
  have table : ∀ number < 17, (Binary64.read (Float.ofNat number)).passes fun significand scale =>
      decide (significand * 2 ^ scale = number * unitsPerOne) := by decide +kernel
  obtain ⟨significand, scale, hread, value⟩ :=
    Binary64.Reading.exists_of_passes (table number (Nat.lt_succ_of_le small))
  exact ⟨significand, scale, hread, of_decide_eq_true value⟩

/-- The bases of numerals with a letter are powers of two. -/
theorem hasUnits_base {base : Nat} (h : base = 16 ∨ base = 8 ∨ base = 2) :
    ∃ bits, base = 2 ^ bits ∧ HasUnits (Float.ofNat base) (2 ^ bits * unitsPerOne) := by
  obtain ⟨bits, power⟩ : ∃ bits, base = 2 ^ bits := by
    rcases h with rfl | rfl | rfl
    · exact ⟨4, rfl⟩
    · exact ⟨3, rfl⟩
    · exact ⟨1, rfl⟩
  refine ⟨bits, power, ?_⟩
  rw [← power]
  exact hasUnits_ofNat (by omega)

/-- Digits after the point never raise a sum beyond what twice the base times the first share
    adds to it: each digit is less than the base, and the next share is at most the part of
    this one that the base makes. -/
theorem hasUnits_of_addDigits {base bits : Nat} (hbase : base = 2 ^ bits) (small : base ≤ 16)
    (hfloat : HasUnits (Float.ofNat base) (2 ^ bits * unitsPerOne)) {digits : List Char} :
    ∀ {sum share : Float} {amount part : Nat} {result : Float × Float},
      HasUnits sum amount → IsShare share part → amount + 2 * (base * part) < Binary64.safe →
      digits.foldlM (fun (sum, share) c => (Text.digitValue? base c).map fun digit =>
        (sum + Float.ofNat digit * share, share / Float.ofNat base)) (sum, share) = some result →
      ∃ total, HasUnits result.1 total := by
  induction digits with
  | nil =>
    intro sum share amount part result hsum _ _ h
    cases h
    exact ⟨amount, hsum⟩
  | cons c digits ih =>
    intro sum share amount part result hsum hshare bound h
    rw [List.foldlM_cons] at h
    obtain ⟨next, hnext, h⟩ := Option.bind_eq_some_iff.1 h
    obtain ⟨digit, hdigit, rfl⟩ := Option.map_eq_some_iff.1 hnext
    have less := Text.digitValue?_lt hdigit
    have product : digit * part + part ≤ base * part := by
      rw [← Nat.succ_mul]
      exact Nat.mul_le_mul_right _ less
    have hproduct := (hasUnits_ofNat (show digit ≤ 16 by omega)).mul hshare (by omega) (by omega)
    obtain ⟨sum', hsum', near⟩ := hsum.add hproduct (by omega)
    obtain ⟨part', hshare', smaller⟩ := hshare.div hfloat (by omega)
    rw [← hbase] at smaller
    exact ih hsum' hshare' (by omega) h

/-- A numeral in another base is read as a finite float. -/
theorem hasUnits_of_readFraction? {base : Nat} (hbase : base = 16 ∨ base = 8 ∨ base = 2)
    {text : List Char} {value : Float} (h : readFraction? base text = some value) :
    ∃ amount, HasUnits value amount := by
  obtain ⟨bits, power, hfloat⟩ := hasUnits_base hbase
  have one : IsShare 1 unitsPerOne :=
    ⟨⟨2 ^ 52, 1022, by decide +kernel⟩, .inr ⟨1074, by rw [unitsPerOne]⟩⟩
  obtain ⟨part, hshare, small⟩ := one.div hfloat (by decide +kernel)
  have room : 2 ^ 65 * unitsPerOne + 2 * unitsPerOne < Binary64.safe := by decide +kernel
  have starts {start : Nat} (bound : start < 2 ^ 64) : ∃ amount,
      HasUnits (Float.ofNat start) amount ∧ amount + 2 * (base * part) < Binary64.safe := by
    obtain ⟨significand, scale, hread, most⟩ := Binary64.read_ofNat bound
    refine ⟨_, ⟨significand, scale, hread, rfl⟩, ?_⟩
    rw [← power] at small
    omega
  simp only [readFraction?, Option.bind_eq_bind, Option.pure_def] at h
  split at h <;> obtain ⟨start, hstart, h⟩ := Option.bind_eq_some_iff.1 h <;>
    obtain ⟨result, hdigits, h⟩ := Option.bind_eq_some_iff.1 h <;> cases h
  · cases hstart
    obtain ⟨_, hsum, fits⟩ := starts (Nat.two_pow_pos 64)
    exact hasUnits_of_addDigits power (by omega) hfloat hsum hshare fits hdigits
  · obtain ⟨_, hsum, fits⟩ := starts (by simpa using (Option.filter_eq_some_iff.1 hstart).2)
    exact hasUnits_of_addDigits power (by omega) hfloat hsum hshare fits hdigits

theorem isPositive_of_readFraction? {base : Nat} (hbase : base = 16 ∨ base = 8 ∨ base = 2)
    {text : List Char} {value : Float} (h : readFraction? base text = some value) :
    Binary64.isPositive value = true := by
  obtain ⟨_, _, _, hread, -⟩ := hasUnits_of_readFraction? hbase h
  rw [Binary64.isPositive, hread]
  rfl

end ExprMachine.Decimal
