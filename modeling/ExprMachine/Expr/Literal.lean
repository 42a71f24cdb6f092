/-
  ExprMachine.Expr.Literal

  What number tokens mean: integers and floats in four bases, and the indexes of a
  property path. Separators between digits have no meaning.
-/
import ExprMachine.Decimal.Reading
import ExprMachine.Expr.Basic
import ExprMachine.Expr.ParseError

namespace ExprMachine.Expr

/-- Leaves the separators out. -/
def withoutSeparators (text : List Char) : List Char :=
  text.filter (· ≠ '_')

/-- The base of a number, and its digits after the letter that announces it. -/
def splitBase (text : List Char) : Nat × List Char :=
  match text with
  | '0' :: mark :: digits =>
    if mark = 'x' ∨ mark = 'X' then (16, digits)
    else if mark = 'o' ∨ mark = 'O' then (8, digits)
    else if mark = 'b' ∨ mark = 'B' then (2, digits)
    else (10, text)
  | _ => (10, text)

/-- Whether an integer fits 64 bits with a sign. -/
def fitsInt64 (number : Int) : Bool :=
  decide (-(2 ^ 63) ≤ number) && decide (number < 2 ^ 63)

/-- The literal that a number token denotes: a float if it has a point, else an
    integer. -/
def ofNumber (lexeme : String) : Except ParseCause Expr :=
  let (base, digits) := splitBase (withoutSeparators lexeme.toList)
  if digits.contains '.' then
    let value? := if base = 10 then Decimal.readFloat? digits else Decimal.readFraction? base digits
    match value? with
    | some value => .ok (.float value.toBits)
    | none => .error (.invalidFloat lexeme)
  else
    match (Text.readSigned? base digits).filter fitsInt64 with
    | some number => .ok (.int (.ofInt number))
    | none => .error (.integerOutOfRange lexeme)

/-- One index of a path, written in canonical decimal. -/
def ofIndex (segment : List Char) : Option String :=
  ((Text.readUnsigned? 10 (withoutSeparators segment)).filter (· < 2 ^ 64)).map toString

/-- The indexes of a path from a number token that starts with a point, if every
    part between two points is an index. -/
def indexPath (lexeme : String) : Option (List String) :=
  ((lexeme.toList.drop 1).splitOn '.').mapM ofIndex

end ExprMachine.Expr
