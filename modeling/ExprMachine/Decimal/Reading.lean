/-
  ExprMachine.Decimal.Reading

  Reading decimal numerals as floats: the nearest float, with ties to the even
  significand, and infinity beyond the largest one.
-/
import ExprMachine.Decimal.Shortest
import ExprMachine.Text.Numerals

namespace ExprMachine.Decimal

/-- The float nearest to `digits * 10 ^ exponent`, where `places` is the number of
    digits. Numbers far beyond the range of floats are settled by their places, so
    that no power of ten larger than needed is computed. -/
def nearest (digits places : Nat) (exponent : Int) : Float :=
  if digits = 0 then Binary64.ofUnits false 0
  else if 400 < (places : Int) + exponent then Binary64.infinity false
  else if (places : Int) + exponent < -400 then Binary64.ofUnits false 0
  else Float.ofScientific digits (exponent < 0) exponent.natAbs

/-- The exponent at the end of a numeral: a letter, maybe a sign, and digits. -/
def readExponent? : List Char → Option Int
  | [] => some 0
  | mark :: rest =>
    if mark = 'e' ∨ mark = 'E' then Text.readSigned? 10 rest else none

/-- Reads digits, maybe a point and more digits, and maybe an exponent. At least one
    digit stands before or after the point. -/
def readMagnitude? (text : List Char) : Option Float := do
  let whole := text.takeWhile Char.isDigit
  let afterWhole := text.dropWhile Char.isDigit
  let (fraction, rest) := match afterWhole with
    | '.' :: more => (more.takeWhile Char.isDigit, more.dropWhile Char.isDigit)
    | rest => ([], rest)
  let digits := (whole ++ fraction).dropWhile (· = '0')
  let number ← Text.readNumeral? 10 (whole ++ fraction)
  let exponent ← readExponent? rest
  return nearest number digits.length (exponent - fraction.length)

/-- Reads a numeral that may follow a sign. -/
def readFloat? : List Char → Option Float
  | '-' :: text => (readMagnitude? text).map Float.neg
  | '+' :: text => readMagnitude? text
  | text => readMagnitude? text

/-- Reads digits in a base with a point among them. The digits before the point fit
    64 bits; each digit after it adds its share, rounded at every step. -/
def readFraction? (base : Nat) (text : List Char) : Option Float := do
  let whole := text.takeWhile (· ≠ '.')
  let fraction := (text.dropWhile (· ≠ '.')).tail
  let start ←
    if whole.isEmpty then some 0
    else (Text.readUnsigned? base whole).filter (· < 2 ^ 64)
  let addDigit := fun (sum, share) c => (Text.digitValue? base c).map fun digit =>
    (sum + Float.ofNat digit * share, share / Float.ofNat base)
  let (sum, _) ← fraction.foldlM addDigit (Float.ofNat start, 1 / Float.ofNat base)
  return sum

end ExprMachine.Decimal
