/-
  ExprMachine.Machine.RunError

  Why a run of the machine has no value.
-/
import ExprMachine.Bytecode.Opcode
import ExprMachine.Text.Numerals
import ExprMachine.Value.Host

namespace ExprMachine

/-- What is wrong with the code or the constants of a chunk. -/
inductive Defect where
  | truncatedOperand
  | indexOutOfRange
  | callAsLiteral
  | expectedName
  | expectedCall
  | expectedCount
  | negativeCount
  | stackUnderflow
deriving DecidableEq, Repr

/-- The words for a defect. -/
def Defect.message : Defect → String
  | .truncatedOperand => "truncated operand"
  | .indexOutOfRange => "constant index out of range"
  | .callAsLiteral => "call descriptor used as a literal"
  | .expectedName => "expected a name constant"
  | .expectedCall => "expected a call descriptor"
  | .expectedCount => "expected an item count"
  | .negativeCount => "negative item count"
  | .stackUnderflow => "stack underflow"

/-- Why a run has no value. -/
inductive RunError where
  /-- The byte at this offset is no opcode. -/
  | unknownInstruction (byte : UInt8) (offset : Nat)
  /-- The operator has no meaning for operands of these kinds. -/
  | invalidOperator (symbol : String) (left right : Kind)
  /-- There is no function of this name. -/
  | unresolvedCall (name : String)
  /-- The function or operator of this name failed. -/
  | callFailed (name : String) (error : CallError)
  /-- The prefix operator has no meaning for an operand of this kind. -/
  | invalidOperand (symbol : String) (kind : Kind)
  /-- The instruction at this offset cannot be carried out. -/
  | malformedChunk (offset : Nat) (defect : Defect)
deriving DecidableEq, Repr

namespace RunError

/-- The stable code of the error. -/
def code : RunError → String
  | .unknownInstruction .. => "RB-R001"
  | .invalidOperator .. => "RB-R002"
  | .unresolvedCall _ => "RB-R003"
  | .callFailed .. => "RB-R004"
  | .invalidOperand .. => "RB-R005"
  | .malformedChunk .. => "RB-R006"

/-- What is wrong. -/
def message : RunError → String
  | .unknownInstruction byte offset =>
    "unknown instruction 0x" ++ Text.padLeft '0' 2 (Text.hexadecimal byte.toNat) ++ " at byte " ++
      toString offset
  | .invalidOperator symbol left right =>
    "invalid operator '" ++ symbol ++ "' for " ++ left.name ++ " and " ++ right.name
  | .unresolvedCall name => "cannot call '" ++ name ++ "': no such function"
  | .callFailed name error => "'" ++ name ++ "' failed: " ++ error.message
  | .invalidOperand symbol kind => "invalid operand for '" ++ symbol ++ "': " ++ kind.name
  | .malformedChunk offset defect =>
    "malformed chunk at byte " ++ toString offset ++ ": " ++ defect.message

end RunError

end ExprMachine
