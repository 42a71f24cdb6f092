/-
  ExprMachine.Bytecode.Chunk

  Compiled expressions: bytes and the constants they refer to. An instruction is one
  byte, followed by the index of a constant in two bytes, the higher one first, if
  its opcode takes one.
-/
import ExprMachine.Bytecode.Constant
import ExprMachine.Bytecode.Opcode

namespace ExprMachine

/-- A compiled expression. -/
structure Chunk where
  code : Array UInt8
  constants : Array Constant
deriving DecidableEq

namespace Chunk

/-- The number that two bytes make. -/
def word (high low : UInt8) : Nat :=
  high.toNat * 256 + low.toNat

/-- The two bytes that start at a place, as a number. -/
def operandAt? (chunk : Chunk) (place : Nat) : Option Nat := do
  let high ← chunk.code[place]?
  let low ← chunk.code[place + 1]?
  return word high low

/-- What stands at the front of the code. -/
inductive Fetched where
  /-- An instruction; the index is zero where the opcode takes none. -/
  | instruction (op : Opcode) (index : Nat)
  /-- A byte that is no opcode. -/
  | unknown (byte : UInt8)
  /-- An opcode whose index is cut off by the end of the code. -/
  | truncated (op : Opcode)
deriving DecidableEq

/-- How many bytes an instruction or an unknown byte takes. What is left of a truncated
    instruction ends the code, so that its size is of no importance. -/
def Fetched.size : Fetched → Nat
  | .instruction op _ => if op.takesConstant then 3 else 1
  | .unknown _ | .truncated _ => 1

/-- Takes what stands at the front of the code, and gives it with the code after it.
    Nothing comes after a truncated instruction. -/
def fetch (byte : UInt8) (rest : List UInt8) : Fetched × List UInt8 :=
  match Opcode.ofByte? byte with
  | none => (.unknown byte, rest)
  | some op =>
    if op.takesConstant then
      match rest with
      | high :: low :: rest => (.instruction op (word high low), rest)
      | _ => (.truncated op, [])
    else (.instruction op 0, rest)

theorem length_fetch_le (byte : UInt8) (rest : List UInt8) :
    (fetch byte rest).2.length ≤ rest.length := by
  unfold fetch
  split
  · exact Nat.le_refl _
  · split
    · split
      · simp only [List.length_cons]; omega
      · exact Nat.zero_le _
    · exact Nat.le_refl _

end Chunk

end ExprMachine
