/-
  ExprMachine.Operators.Arithmetic

  Integer operations. The result is the exact one if 64 bits hold it, and there is
  none otherwise.
-/
import ExprMachine.Binary64.Exact
import ExprMachine.Value.Host

namespace ExprMachine.Arithmetic

/-- Whether 64 bits with a sign hold an integer. -/
def Fits (result : Int) : Prop := -(2 ^ 63) ≤ result ∧ result < 2 ^ 63

instance (result : Int) : Decidable (Fits result) :=
  inferInstanceAs (Decidable (_ ∧ _))

/-- An exact result as a value, if 64 bits hold it. -/
def checked (result : Int) : Except CallError Value :=
  if Fits result then .ok (.int (.ofInt result)) else .error .integerOverflow

/-- The sum. -/
def add (a b : Int64) : Except CallError Value := checked (a.toInt + b.toInt)

/-- The difference. -/
def sub (a b : Int64) : Except CallError Value := checked (a.toInt - b.toInt)

/-- The product. -/
def mul (a b : Int64) : Except CallError Value := checked (a.toInt * b.toInt)

/-- The quotient, rounded toward zero. -/
def div (a b : Int64) : Except CallError Value :=
  if b = 0 then .error .divisionByZero else checked (a.toInt.tdiv b.toInt)

/-- The remainder of the quotient. It counts as out of range when the quotient is. -/
def mod (a b : Int64) : Except CallError Value :=
  if b = 0 then .error .divisionByZero
  else
    match checked (a.toInt.tdiv b.toInt) with
    | .error error => .error error
    | .ok _ => checked (a.toInt.tmod b.toInt)

/-- The product of two integers, if 64 bits hold it. -/
def product? (a b : Int) : Option Int :=
  if Fits (a * b) then some (a * b) else none

/-- A factor, multiplied by the base if the lowest bit of the exponent is set. -/
def takeBit? (factor base : Int) (exponent : Nat) : Option Int :=
  if exponent % 2 = 1 then product? factor base else some factor

/-- The product of a factor and a power, by repeated squaring of the base, if 64 bits hold
    every product that is formed on the way. -/
def timesPower? (factor base : Int) (exponent : Nat) : Option Int :=
  if exponent = 0 then some factor
  else
    match takeBit? factor base exponent with
    | none => none
    | some factor =>
      -- The square is formed only if a bit of the exponent is left that uses it.
      if exponent = 1 then some factor
      else
        match product? base base with
        | none => none
        | some square => timesPower? factor square (exponent / 2)
termination_by exponent

/-- The power. A negative exponent gives a float; exponents that 32 bits do not hold
    are refused. -/
def pow (a b : Int64) : Except CallError Value :=
  if b < 0 then .ok (.float ((Binary64.ofInt a.toInt).pow (Binary64.ofInt b.toInt)))
  else
    let exponent := b.toNatClampNeg
    if 2 ^ 32 ≤ exponent then .error .integerOverflow
    else
      match timesPower? 1 a.toInt exponent with
      | some power => .ok (.int (.ofInt power))
      | none => .error .integerOverflow

end ExprMachine.Arithmetic
