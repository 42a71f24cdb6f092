/-
  ExprMachine.Value.Host

  What the machine knows about the program around it: what its functions answer and
  how its objects can be used.
-/
import ExprMachine.Value.Basic

namespace ExprMachine

/-! ## Failures of functions -/

/-- Why a call of a function or of an operator has no value. -/
inductive CallError where
  /-- An integer operation has no result of 64 bits. -/
  | integerOverflow
  | divisionByZero
  /-- An operand is not of the kind that is asked for. -/
  | mismatch (expected got : Kind)
  /-- A failure that the surrounding program reports in its own words. -/
  | reported (message : String)
deriving DecidableEq, Repr

/-- What is wrong. -/
def CallError.message : CallError → String
  | .integerOverflow => "integer overflow"
  | .divisionByZero => "division by zero"
  | .mismatch expected got => "expected " ++ expected.name ++ ", got " ++ got.name
  | .reported message => message

/-! ## Objects -/

/-- How the parts of an object are reached. -/
inductive Shape where
  /-- By position: how many positions are searched for members, and what is there. -/
  | indexed (length : Nat) (item? : Nat → Option Value)
  /-- By key: the value of a key, the value that stands for a missing one, and whether
      a key counts as a member. -/
  | keyed (value? : String → Option Value) (missing : Value) (hasKey : String → Bool)
  /-- By name: fields, and methods. -/
  | record (field? : String → Option Value) (method? : String → Option FunctionRef)
  /-- Not at all. -/
  | plain

/-- The program around the machine. -/
structure Host where
  /-- What a function answers to some arguments. -/
  call : FunctionRef → List Value → Except CallError Value
  /-- How the parts of an object are reached. -/
  shape : ObjectRef → Shape
  /-- Whether an object counts as true. -/
  isTruthy : ObjectRef → Bool
  /-- An object in debugging output. -/
  describe : ObjectRef → String

/-- A program without functions and objects. -/
def Host.empty : Host where
  call := fun _ _ => .error (.reported "no such function")
  shape := fun _ => .plain
  isTruthy := fun _ => true
  describe := fun object => object.typeName

end ExprMachine
