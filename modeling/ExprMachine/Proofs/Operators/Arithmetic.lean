/-
  ExprMachine.Proofs.Operators.Arithmetic

  The standard operators on integers and exact arithmetic. An operator answers with the
  exact result if 64 bits hold it, and fails with an overflow if they do not; a division
  by zero has no result at all. The one exception is a remainder that is refused although
  it is zero, because the quotient beside it does not fit.
-/
import Mathlib.Algebra.Order.Ring.Int
import ExprMachine.Machine.Operations
import ExprMachine.Operators.Standard

namespace ExprMachine

-- ============================================================================
-- Results of 64 bits
-- ============================================================================

namespace Arithmetic

theorem fits_toInt (a : Int64) : Fits a.toInt :=
  ⟨a.le_toInt, a.toInt_lt⟩

theorem toInt_ofInt_of_fits {result : Int} (h : Fits result) :
    (Int64.ofInt result).toInt = result :=
  Int64.toInt_ofInt_of_le h.1 h.2

theorem checked_eq_ok_iff {result : Int} {value : Value} :
    checked result = .ok value ↔ ∃ n : Int64, n.toInt = result ∧ value = .int n := by
  unfold checked
  by_cases fits : Fits result
  · rw [if_pos fits, Except.ok.injEq]
    constructor
    · rintro rfl
      exact ⟨.ofInt result, toInt_ofInt_of_fits fits, rfl⟩
    · rintro ⟨n, rfl, rfl⟩
      rw [Int64.ofInt_toInt]
  · rw [if_neg fits]
    constructor
    · exact nofun
    · rintro ⟨n, rfl, -⟩
      exact absurd (fits_toInt n) fits

theorem checked_eq_error_iff {result : Int} {error : CallError} :
    checked result = .error error ↔ error = .integerOverflow ∧ ¬ Fits result := by
  unfold checked
  by_cases fits : Fits result
  · rw [if_pos fits]
    exact ⟨nofun, fun h => absurd fits h.2⟩
  · rw [if_neg fits, Except.error.injEq]
    exact ⟨fun same => ⟨same.symm, fits⟩, fun h => h.1.symm⟩

-- ============================================================================
-- Division
-- ============================================================================

/-- `Division a b quotient remainder`: the remainder is smaller than the divisor and has
    the sign of the dividend, so that the quotient is rounded toward zero. -/
structure Division (a b quotient remainder : Int) : Prop where
  sum : remainder + b * quotient = a
  smaller : remainder.natAbs < b.natAbs
  nonneg : 0 ≤ a → 0 ≤ remainder
  nonpos : a ≤ 0 → remainder ≤ 0

/-- There is one division by every number but zero. -/
theorem division_iff {a b quotient remainder : Int} :
    Division a b quotient remainder ↔
      b ≠ 0 ∧ a.tdiv b = quotient ∧ a.tmod b = remainder := by
  constructor
  · rintro ⟨sum, smaller, nonneg, nonpos⟩
    have hb : b ≠ 0 := by
      rintro rfl
      exact absurd smaller (Nat.not_lt_zero _)
    refine ⟨hb, ?_⟩
    rcases le_total 0 a with positive | negative
    · have := nonneg positive
      exact (Int.tdiv_tmod_unique positive hb).2 ⟨sum, this, by omega⟩
    · have := nonpos negative
      exact (Int.tdiv_tmod_unique' negative hb).2 ⟨sum, by omega, this⟩
  · rintro ⟨hb, rfl, rfl⟩
    refine ⟨Int.tmod_add_mul_tdiv a b, ?_, Int.tmod_nonneg b, fun h => ?_⟩
    · rw [Int.natAbs_tmod]
      exact Nat.mod_lt _ (Int.natAbs_pos.2 hb)
    · rcases Int.tdiv_tmod_unique' h hb |>.1 ⟨rfl, rfl⟩ with ⟨-, -, h⟩
      exact h

/-- A quotient fits unless the least integer is divided by -1. -/
theorem fits_tdiv_iff {a b : Int64} (hb : b.toInt ≠ 0) :
    Fits (a.toInt.tdiv b.toInt) ↔ ¬ (a = .minValue ∧ b = -1) := by
  have least : Int64.minValue.toInt = -(2 ^ 63) := rfl
  have minus : (-1 : Int64).toInt = -1 := rfl
  rw [← Int64.toInt_inj, ← Int64.toInt_inj, least, minus]
  obtain ⟨low, high⟩ := fits_toInt a
  by_cases one : b.toInt = 1
  · rw [one, Int.tdiv_one]
    exact ⟨fun _ => by omega, fun _ => ⟨low, high⟩⟩
  by_cases minusOne : b.toInt = -1
  · rw [minusOne, Int.tdiv_neg, Int.tdiv_one]
    unfold Fits
    omega
  · -- Any other divisor halves the dividend at least.
    have halves : (a.toInt.tdiv b.toInt).natAbs ≤ a.toInt.natAbs / 2 := by
      rw [Int.natAbs_tdiv]
      exact Nat.div_le_div_left (by omega) (by decide)
    unfold Fits
    omega

-- ============================================================================
-- Exact results
-- ============================================================================

/-- The arithmetic operators with a result for all integers, division by zero apart, and
    what that result is in arithmetic without bounds. -/
def exactResults : List (String × (Int → Int → Int → Prop)) :=
  [("+", fun a b result => result = a + b),
   ("-", fun a b result => result = a - b),
   ("*", fun a b result => result = a * b),
   ("/", fun a b quotient => ∃ remainder, Division a b quotient remainder),
   ("%", fun a b remainder => ∃ quotient, Division a b quotient remainder)]

/-- Whether an operator divides by zero. -/
def Undefined (symbol : String) (b : Int64) : Prop :=
  (symbol = "/" ∨ symbol = "%") ∧ b = 0

/-- Whether a remainder is refused although it fits: the least integer divided by -1
    leaves nothing, but the quotient is too large by one. -/
def Refused (symbol : String) (a b : Int64) : Prop :=
  symbol = "%" ∧ a = .minValue ∧ b = -1

/-- `Answers symbol exact a b outcome`: the outcome is the exact result if there is one that
    fits, and otherwise says why there is none. -/
structure Answers (symbol : String) (exact : Int → Int → Int → Prop) (a b : Int64)
    (outcome : Except CallError Value) : Prop where
  value : ∀ value, outcome = .ok value ↔
    (∃ n : Int64, exact a.toInt b.toInt n.toInt ∧ value = .int n) ∧ ¬ Refused symbol a b
  error : ∀ error, outcome = .error error ↔
    (error = .divisionByZero ∧ Undefined symbol b) ∨
      (error = .integerOverflow ∧
        ((∃ result, exact a.toInt b.toInt result ∧ ¬ Fits result) ∨ Refused symbol a b))

variable {symbol : String} {exact : Int → Int → Int → Prop} {a b : Int64}

/-- An operator with one exact result answers with it, as far as 64 bits hold it. -/
theorem answers_checked {result : Int}
    (exact_iff : ∀ n, exact a.toInt b.toInt n ↔ n = result)
    (defined : ¬ Undefined symbol b) (accepted : ¬ Refused symbol a b) :
    Answers symbol exact a b (checked result) := by
  constructor
  · intro value
    simp [checked_eq_ok_iff, exact_iff, accepted]
  · intro error
    simp [checked_eq_error_iff, exact_iff, defined, accepted]

theorem answers_divisionByZero (undefined : Undefined symbol b)
    (none_exact : ∀ n, ¬ exact a.toInt b.toInt n) :
    Answers symbol exact a b (.error .divisionByZero) := by
  have accepted : ¬ Refused symbol a b := by
    rintro ⟨-, -, same⟩
    rw [undefined.2] at same
    exact absurd same (by decide)
  constructor
  · intro value
    simp [none_exact]
  · intro error
    simp [none_exact, undefined, accepted, eq_comm]

theorem answers_refused (refused : Refused symbol a b) :
    Answers symbol exact a b (.error .integerOverflow) := by
  have defined : ¬ Undefined symbol b := by
    rintro ⟨-, zero⟩
    rw [refused.2.2] at zero
    exact absurd zero (by decide)
  constructor
  · intro value
    simp [refused]
  · intro error
    simp [refused, defined, eq_comm]

-- ============================================================================
-- The operations
-- ============================================================================

theorem answers_total (operation : Int → Int → Int) (total : symbol ≠ "/" ∧ symbol ≠ "%")
    (a b : Int64) :
    Answers symbol (fun a b result => result = operation a b) a b
      (checked (operation a.toInt b.toInt)) :=
  answers_checked (fun _ => .rfl) (fun h => h.1.elim total.1 total.2) (fun h => total.2 h.1)

theorem toInt_ne_zero (hb : b ≠ 0) : b.toInt ≠ 0 :=
  fun h => hb (Int64.toInt_inj.1 h)

theorem answers_div (a b : Int64) :
    Answers "/" (fun a b quotient => ∃ remainder, Division a b quotient remainder) a b
      (div a b) := by
  unfold div
  by_cases hb : b = 0
  · rw [if_pos hb]
    refine answers_divisionByZero ⟨.inl rfl, hb⟩ ?_
    rintro n ⟨remainder, h⟩
    exact (division_iff.1 h).1 (by rw [hb]; rfl)
  · rw [if_neg hb]
    refine answers_checked (fun n => ?_) (fun h => hb h.2) (fun h => by simp [Refused] at h)
    simp [division_iff, toInt_ne_zero hb, eq_comm]

theorem answers_mod (a b : Int64) :
    Answers "%" (fun a b remainder => ∃ quotient, Division a b quotient remainder) a b
      (mod a b) := by
  unfold mod
  by_cases hb : b = 0
  · rw [if_pos hb]
    refine answers_divisionByZero ⟨.inr rfl, hb⟩ ?_
    rintro n ⟨quotient, h⟩
    exact (division_iff.1 h).1 (by rw [hb]; rfl)
  · rw [if_neg hb]
    have fits := fits_tdiv_iff (a := a) (toInt_ne_zero hb)
    cases quotient : checked (a.toInt.tdiv b.toInt) with
    | ok value =>
      obtain ⟨n, same, -⟩ := checked_eq_ok_iff.1 quotient
      refine answers_checked (fun n => ?_) (fun h => hb h.2) fun h => ?_
      · simp [division_iff, toInt_ne_zero hb, eq_comm]
      · exact fits.1 (same ▸ fits_toInt n) h.2
    | error error =>
      obtain ⟨rfl, beyond⟩ := checked_eq_error_iff.1 quotient
      exact answers_refused ⟨rfl, not_not.1 (mt fits.2 beyond)⟩

end Arithmetic

-- ============================================================================
-- The standard overloads
-- ============================================================================

namespace Registry

/-- The arithmetic operators, and what their standard overloads do to two integers. -/
def onInts : List (String × (Int64 → Int64 → Except CallError Value)) :=
  [("+", Arithmetic.add), ("-", Arithmetic.sub), ("*", Arithmetic.mul), ("/", Arithmetic.div),
   ("%", Arithmetic.mod), ("^", Arithmetic.pow)]

theorem resolve?_onInts {symbol : String} {operation : Int64 → Int64 → Except CallError Value}
    (h : (symbol, operation) ∈ onInts) :
    standard.resolve? symbol .int .int = some (.ofTyped .int .int operation) := by
  simp only [onInts, List.mem_cons, Prod.mk.injEq, List.not_mem_nil, or_false] at h
  rcases h with ⟨rfl, rfl⟩ | ⟨rfl, rfl⟩ | ⟨rfl, rfl⟩ | ⟨rfl, rfl⟩ | ⟨rfl, rfl⟩ | ⟨rfl, rfl⟩ <;> rfl

end Registry

namespace Arithmetic

/-- Every arithmetic operator has an operation on integers that answers with its exact
    results. -/
theorem exists_operation {symbol : String} {exact : Int → Int → Int → Prop}
    (h : (symbol, exact) ∈ exactResults) :
    ∃ operation, (symbol, operation) ∈ Registry.onInts ∧
      ∀ a b, Answers symbol exact a b (operation a b) := by
  simp only [exactResults, List.mem_cons, Prod.mk.injEq, List.not_mem_nil, or_false] at h
  rcases h with ⟨rfl, rfl⟩ | ⟨rfl, rfl⟩ | ⟨rfl, rfl⟩ | ⟨rfl, rfl⟩ | ⟨rfl, rfl⟩
  · exact ⟨add, by simp [Registry.onInts], answers_total (· + ·) (by decide)⟩
  · exact ⟨sub, by simp [Registry.onInts], answers_total (· - ·) (by decide)⟩
  · exact ⟨mul, by simp [Registry.onInts], answers_total (· * ·) (by decide)⟩
  · exact ⟨div, by simp [Registry.onInts], answers_div⟩
  · exact ⟨mod, by simp [Registry.onInts], answers_mod⟩

end Arithmetic

-- ============================================================================
-- Evaluating an operator
-- ============================================================================

namespace Context

open Arithmetic (Division Fits Refused Undefined exactResults)

variable {context : Context} {symbol : String}

theorem applyOperator_eq_ok_iff {operation : Int64 → Int64 → Except CallError Value}
    (hstandard : context.operators = .standard) (h : (symbol, operation) ∈ Registry.onInts)
    {a b : Int64} {value : Value} :
    context.applyOperator symbol (.int a) (.int b) = .ok value ↔ operation a b = .ok value := by
  have applied : (Overload.ofTyped .int .int operation).apply (.int a) (.int b) =
      operation a b := rfl
  unfold applyOperator
  rw [hstandard, Value.kind, Value.kind, Registry.resolve?_onInts h]
  cases houtcome : operation a b <;> simp [applied, houtcome]

theorem applyOperator_eq_error_iff {operation : Int64 → Int64 → Except CallError Value}
    (hstandard : context.operators = .standard) (h : (symbol, operation) ∈ Registry.onInts)
    {a b : Int64} {error : RunError} :
    context.applyOperator symbol (.int a) (.int b) = .error error ↔
      ∃ cause, operation a b = .error cause ∧ error = .callFailed symbol cause := by
  have applied : (Overload.ofTyped .int .int operation).apply (.int a) (.int b) =
      operation a b := rfl
  unfold applyOperator
  rw [hstandard, Value.kind, Value.kind, Registry.resolve?_onInts h]
  cases houtcome : operation a b <;> simp [applied, houtcome, eq_comm]

/-- The standard arithmetic operators are exact on integers. They answer with the result of
    arithmetic without bounds just when there is one that 64 bits hold, they fail with a
    division by zero just when the divisor is zero, and with an overflow just when the
    result does not fit, except that the remainder of the least integer by -1 is refused. -/
theorem applyOperator_exact (hstandard : context.operators = .standard)
    {exact : Int → Int → Int → Prop} (h : (symbol, exact) ∈ exactResults) (a b : Int64) :
    (∀ value, context.applyOperator symbol (.int a) (.int b) = .ok value ↔
      (∃ n : Int64, exact a.toInt b.toInt n.toInt ∧ value = .int n) ∧ ¬ Refused symbol a b) ∧
    (∀ error, context.applyOperator symbol (.int a) (.int b) = .error error ↔
      (error = .callFailed symbol .divisionByZero ∧ Undefined symbol b) ∨
      (error = .callFailed symbol .integerOverflow ∧
        ((∃ result, exact a.toInt b.toInt result ∧ ¬ Fits result) ∨ Refused symbol a b))) := by
  obtain ⟨operation, hoperation, answers⟩ := Arithmetic.exists_operation h
  refine ⟨fun value => ?_, fun error => ?_⟩
  · rw [applyOperator_eq_ok_iff hstandard hoperation]
    exact (answers a b).value value
  · rw [applyOperator_eq_error_iff hstandard hoperation]
    constructor
    · rintro ⟨cause, failed, rfl⟩
      rcases ((answers a b).error cause).1 failed with ⟨rfl, zero⟩ | ⟨rfl, beyond⟩
      · exact .inl ⟨rfl, zero⟩
      · exact .inr ⟨rfl, beyond⟩
    · rintro (⟨rfl, zero⟩ | ⟨rfl, beyond⟩)
      · exact ⟨_, ((answers a b).error _).2 (.inl ⟨rfl, zero⟩), rfl⟩
      · exact ⟨_, ((answers a b).error _).2 (.inr ⟨rfl, beyond⟩), rfl⟩

/-- A negative dividend: the quotient is rounded up to -3, the remainder is -1. -/
theorem applyOperator_exact_negative :
    let context : Context := ⟨.empty, .standard, .nil⟩
    context.operators = .standard ∧
      context.applyOperator "/" (.int (-7)) (.int 2) = .ok (.int (-3)) ∧
      context.applyOperator "%" (.int (-7)) (.int 2) = .ok (.int (-1)) ∧
      context.applyOperator "%" (.int (-7)) (.int 0) =
        .error (.callFailed "%" .divisionByZero) := by
  intro context
  have hstandard : context.operators = .standard := rfl
  have division : Division (-7) 2 (-3) (-1) := ⟨rfl, by decide, by decide, by decide⟩
  have quotient := applyOperator_exact hstandard
    (show ("/", fun a b quotient => ∃ remainder, Division a b quotient remainder) ∈ exactResults
      by simp [exactResults]) (-7) 2
  have remainder := applyOperator_exact hstandard
    (show ("%", fun a b remainder => ∃ quotient, Division a b quotient remainder) ∈ exactResults
      by simp [exactResults])
  refine ⟨hstandard, ?_, ?_, ?_⟩
  · exact (quotient.1 _).2 ⟨⟨-3, ⟨-1, division⟩, rfl⟩, by simp [Refused]⟩
  · exact ((remainder (-7) 2).1 _).2 ⟨⟨-1, ⟨-3, division⟩, rfl⟩, by simp [Refused]⟩
  · exact ((remainder (-7) 0).2 _).2 (.inl ⟨rfl, .inr rfl, rfl⟩)

/-- The remainder of the least integer by -1 is zero, and yet it is refused. -/
theorem applyOperator_refused :
    Division Int64.minValue.toInt (-1 : Int64).toInt (2 ^ 63) (0 : Int64).toInt ∧
      (⟨.empty, .standard, .nil⟩ : Context).applyOperator "%" (.int .minValue) (.int (-1)) =
        .error (.callFailed "%" .integerOverflow) :=
  ⟨⟨rfl, by decide, by decide, by decide⟩, rfl⟩

end Context

end ExprMachine
