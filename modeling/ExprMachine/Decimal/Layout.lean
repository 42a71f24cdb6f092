/-
  ExprMachine.Decimal.Layout

  How the digits of a float are laid out as text: with a point among them, or with
  one digit before the point and an exponent.
-/
import ExprMachine.Decimal.Shortest

namespace ExprMachine.Decimal

/-- The decisions of a format for floats. A place is the number of digits before the
    point when a number is written without an exponent; it is zero or less when the
    number is smaller than one tenth. -/
structure Layout where
  /-- Which of two equally near shortest decimals is written. -/
  tie : Tie
  /-- Whether a number of this place is written without an exponent. -/
  isPositional : Int → Bool
  /-- Whether a whole number of this place, written without an exponent, ends in a
      point and a zero. -/
  showsPoint : Int → Bool
  /-- Whether exponents that are not negative have a plus sign. -/
  exponentPlus : Bool

/-- The digits of a decimal, most significant first. -/
def digitChars (decimal : Decimal) : List Char :=
  Nat.toDigits 10 decimal.digits

/-- The number of digits before the point. -/
def place (decimal : Decimal) : Int :=
  decimal.digitChars.length + decimal.exponent

/-- Digits with the point at a place; zeros fill the gap between them. -/
def positional (showsPoint : Bool) (digits : List Char) (place : Int) : List Char :=
  if place ≤ 0 then
    '0' :: '.' :: (List.replicate (-place).toNat '0' ++ digits)
  else if (digits.length : Int) ≤ place then
    digits ++ List.replicate (place.toNat - digits.length) '0' ++
      (if showsPoint then ['.', '0'] else [])
  else
    digits.take place.toNat ++ '.' :: digits.drop place.toNat

/-- Digits with the point after the first one, and an exponent. -/
def scientific (exponentPlus : Bool) (digits : List Char) (place : Int) : List Char :=
  let exponent := place - 1
  let sign := if exponent < 0 then ['-'] else if exponentPlus then ['+'] else []
  let fraction := match digits.tail with
    | [] => []
    | tail => '.' :: tail
  digits.take 1 ++ fraction ++ 'e' :: (sign ++ Nat.toDigits 10 exponent.natAbs)

/-- The text of a finite magnitude. -/
def Layout.magnitude (layout : Layout) (significand scale : Nat) : List Char :=
  let decimal := shortest layout.tie significand scale
  let place := decimal.place
  if layout.isPositional place then
    positional (layout.showsPoint place) decimal.digitChars place
  else scientific layout.exponentPlus decimal.digitChars place

/-- The text of a float. -/
def Layout.text (layout : Layout) (x : Float) : String :=
  match Binary64.read x with
  | .notANumber => "NaN"
  | .infinite negative => if negative then "-inf" else "inf"
  | .finite negative significand scale =>
    String.ofList ((if negative then ['-'] else []) ++ layout.magnitude significand scale)

/-- Floats for listings and debugging: always recognisable as floats, with an exponent
    from 10 ^ 16 on and below 10 ^ -4. -/
def Layout.debug : Layout where
  tie := .up
  isPositional := fun place => decide (-3 ≤ place) && decide (place ≤ 16)
  showsPoint := fun _ => true
  exponentPlus := false

end ExprMachine.Decimal
