/-
  ExprMachine.Bytecode.Constant

  The constants of compiled expressions. Scalars are equal when they are the same
  value of the same type. Floats are kept as their bits and are the same when these are,
  so the two zeros differ, and so do any two of the many that stand for no number.
-/
import ExprMachine.Decimal.Layout
import ExprMachine.Text.Quoted

namespace ExprMachine

/-- A constant that a value can be. Texts also serve as names. -/
inductive Scalar where
  | int (value : Int64)
  | float (bits : UInt64)
  | text (value : String)
deriving DecidableEq

instance : Hashable Scalar where
  hash
    | .int value => mixHash 1 (hash value)
    | .float bits => mixHash 2 (hash bits)
    | .text value => mixHash 3 (hash value)

/-- A constant: a scalar, or the description of one call. -/
inductive Constant where
  | scalar (value : Scalar)
  /-- The name of the function and the number of its arguments. -/
  | call (name : String) (argumentCount : Nat)
deriving DecidableEq

/-- The written form of a constant. -/
def Constant.toText : Constant → String
  | .scalar (.int value) => toString value.toInt
  | .scalar (.float bits) => Decimal.Layout.debug.text (.ofBits bits)
  | .scalar (.text value) => Text.quoted value
  | .call name argumentCount => name ++ "/" ++ toString argumentCount

end ExprMachine
