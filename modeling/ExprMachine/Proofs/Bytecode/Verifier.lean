/-
  ExprMachine.Proofs.Bytecode.Verifier

  A check of chunks that runs nothing. It decodes the code from the first byte to the
  last and follows the height of the stack, for which it looks at opcodes, argument
  counts and item counts only. The outcome is the height at the end, or the offset of
  the first instruction that cannot be carried out.
-/
import ExprMachine.Bytecode.Chunk

namespace ExprMachine.Chunk

-- ============================================================================
-- One instruction
-- ============================================================================

/-- How many values an instruction takes from the stack, if its index finds a constant
    of the kind that it needs. -/
def taken? (constants : Array Constant) (op : Opcode) (index : Nat) : Option Nat :=
  match op with
  | .push =>
    match constants[index]? with
    | some (.scalar _) => some 0
    | _ => none
  | .fetch =>
    match constants[index]? with
    | some (.scalar (.text _)) => some 0
    | _ => none
  | .property =>
    match constants[index]? with
    | some (.scalar (.text _)) => some 1
    | _ => none
  | .call =>
    match constants[index]? with
    | some (.call _ argumentCount) => some argumentCount
    | _ => none
  | .method =>
    match constants[index]? with
    | some (.call _ argumentCount) => some (argumentCount + 1)
    | _ => none
  | .list =>
    match constants[index]? with
    | some (.scalar (.int count)) => if count < 0 then none else some count.toNatClampNeg
    | _ => none
  | .pushTrue | .pushFalse | .pushNil => some 0
  | .pop | .not | .negate => some 1
  | _ => some 2

/-- How many values an instruction leaves on the stack. -/
def given : Opcode → Nat
  | .pop => 0
  | _ => 1

/-- The height of the stack after values were taken from it and others put there, if it
    was high enough. -/
def settle? (height taken given : Nat) : Option Nat :=
  if taken ≤ height then some (height - taken + given) else none

/-- The height of the stack after what stands at the front of the code, if that is an
    instruction that can be carried out. -/
def heightAfter? (constants : Array Constant) (height : Nat) : Fetched → Option Nat
  | .instruction op index =>
    (taken? constants op index).bind fun taken => settle? height taken (given op)
  | .unknown _ | .truncated _ => none

/-- An instruction for a literal that needs no constant adds a value to every stack. -/
theorem heightAfter?_literal {op : Opcode} (h : op = .pushTrue ∨ op = .pushFalse ∨ op = .pushNil)
    (constants : Array Constant) (height index : Nat) :
    heightAfter? constants height (.instruction op index) = some (height + 1) := by
  rcases h with rfl | rfl | rfl <;> simp [heightAfter?, taken?, settle?, given]

-- ============================================================================
-- Whole chunks
-- ============================================================================

/-- Checks the code from an offset on, where the stack has some height. -/
def checkFrom (constants : Array Constant) (offset height : Nat) : List UInt8 → Except Nat Nat
  | [] => .ok height
  | byte :: rest =>
    match heightAfter? constants height (fetch byte rest).1 with
    | none => .error offset
    | some height =>
      checkFrom constants (offset + (fetch byte rest).1.size) height (fetch byte rest).2
termination_by code => code.length
decreasing_by exact Nat.lt_succ_of_le (length_fetch_le byte rest)

/-- The height of the stack at the end of a chunk, or the offset of the first
    instruction that cannot be carried out. -/
def check (chunk : Chunk) : Except Nat Nat :=
  checkFrom chunk.constants 0 0 chunk.code.toList

end ExprMachine.Chunk
