/-
  ExprMachine.Decimal.Shortest

  The shortest decimal that reads back as a given float, and among those the one
  nearest to its value. The decimals that read back form an interval around the
  value; the search tries ever finer decimal grids until one has a point in it.
-/
import ExprMachine.Binary64.Exact

namespace ExprMachine

/-- A decimal: `digits * 10 ^ exponent`. -/
structure Decimal where
  digits : Nat
  exponent : Int
deriving DecidableEq, Repr

namespace Decimal

/-- Which of two equally near decimals is taken. -/
inductive Tie where
  /-- The larger one. -/
  | up
  /-- The one whose last digit is even. -/
  | even
deriving DecidableEq, Repr

/-- The interval of the reals that read back as one float, in quarters of a unit.
    The ends belong to it when the float's significand is even. -/
structure Interval where
  low : Nat
  value : Nat
  high : Nat
  closed : Bool

/-- The interval around `significand * 2 ^ scale` units. Half the distance to the
    next float lies on either side, and half as much below a power of two. -/
def Interval.around (significand scale : Nat) : Interval :=
  let quarter := 2 ^ scale
  let below := if significand = 2 ^ 52 ∧ 0 < scale then quarter else 2 * quarter
  let value := 4 * significand * quarter
  { low := value - below
    value
    high := value + 2 * quarter
    closed := significand % 2 == 0 }

/-- Whether `digits` grid steps lie in the interval, where a step is `step` and a
    quarter of a unit is `quarter` of one common measure. -/
def Interval.holds (interval : Interval) (quarter step digits : Nat) : Bool :=
  let point := digits * step
  if interval.closed then
    decide (interval.low * quarter ≤ point) && decide (point ≤ interval.high * quarter)
  else
    decide (interval.low * quarter < point) && decide (point < interval.high * quarter)

/-- The point of the grid `10 ^ exponent` in the interval that is nearest to the
    value. If the grid has a point in the interval, then one of the two points next
    to the value is in it. -/
def Interval.onGrid? (interval : Interval) (tie : Tie) (exponent : Int) : Option Nat :=
  -- One of the two powers is one, so that the grid and the interval are integers of
  -- one measure, whatever the sign of the exponent.
  let quarter := 10 ^ (-exponent).toNat
  let step := 10 ^ exponent.toNat * (4 * Binary64.unitsPerOne)
  let value := interval.value * quarter
  let below := value / step
  let above := below + 1
  match interval.holds quarter step below, interval.holds quarter step above with
  | false, false => none
  | true, false => some below
  | false, true => some above
  | true, true =>
    let down := value - below * step
    let up := above * step - value
    if down < up then some below
    else if up < down then some above
    else match tie with
      | .up => some above
      | .even => some (if below % 2 = 0 then below else above)

/-- Tries grids from a coarse one to finer ones, so many of them at most. -/
def Interval.search (interval : Interval) (tie : Tie) (exponent : Int) : Nat → Decimal
  | 0 =>
    let step := 10 ^ exponent.toNat * (4 * Binary64.unitsPerOne)
    ⟨interval.value * 10 ^ (-exponent).toNat / step, exponent⟩
  | steps + 1 =>
    match interval.onGrid? tie exponent with
    | some digits => ⟨digits, exponent⟩
    | none => interval.search tie (exponent - 1) steps

/-- An exponent whose power of ten is above `significand * 2 ^ scale` units, by not
    more than a factor of a hundred or so. -/
def coarseExponent (significand scale : Nat) : Int :=
  -- A unit is two to the power -1074, and 0.30103 is the decimal logarithm of two.
  ((significand.log2 + 1 + scale : Nat) - 1074 : Int) * 30103 / 100000 + 1

/-- The shortest decimal for `significand * 2 ^ scale` units. Seventeen digits are
    enough for every float. -/
def shortest (tie : Tie) (significand scale : Nat) : Decimal :=
  if significand = 0 then ⟨0, 0⟩
  else (Interval.around significand scale).search tie (coarseExponent significand scale) 20

end Decimal

end ExprMachine
