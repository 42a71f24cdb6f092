/-
  ExprMachine.Machine.Operations

  What single operations of expressions do to values, apart from any stack.
-/
import ExprMachine.Bytecode.Constant
import ExprMachine.Machine.RunError
import ExprMachine.Operators.Registry
import ExprMachine.Value.Access

namespace ExprMachine

/-- What an expression is evaluated in: the surrounding program, the meanings of the
    operators, and the value whose parts the names of the expression are. -/
structure Context where
  host : Host
  operators : Registry
  environment : Value

namespace Context

/-- Applies the overload of an operator. -/
def applyOperator (context : Context) (symbol : String) (left right : Value) :
    Except RunError Value :=
  match context.operators.resolve? symbol left.kind right.kind with
  | none => .error (.invalidOperator symbol left.kind right.kind)
  | some overload =>
    match overload.apply left right with
    | .ok value => .ok value
    | .error error => .error (.callFailed symbol error)

/-- Calls the function that a value has under a name. -/
def invoke (context : Context) (target : Value) (name : String) (arguments : List Value) :
    Except RunError Value :=
  match target.callable? context.host name with
  | none => .error (.unresolvedCall name)
  | some function =>
    match context.host.call function arguments with
    | .ok value => .ok value
    | .error error => .error (.callFailed name error)

/-- Whether one value is among the members of another. -/
def isMember (context : Context) (needle container : Value) : Except RunError Value :=
  match container.contains? context.host needle with
  | some found => .ok (.bool found)
  | none => .error (.invalidOperator "in" needle.kind container.kind)

end Context

namespace Value

/-- The value with the other sign. The least integer has none. -/
def negate : Value → Except RunError Value
  | .int value =>
    if value.toInt = -(2 ^ 63) then .error (.callFailed "-" .integerOverflow)
    else .ok (.int (-value))
  | .float value => .ok (.float (-value))
  | value => .error (.invalidOperand "-" value.kind)

/-- The value of a scalar constant. -/
def ofScalar : Scalar → Value
  | .int value => .int value
  | .float bits => .float (.ofBits bits)
  | .text value => .text value

end Value

end ExprMachine
