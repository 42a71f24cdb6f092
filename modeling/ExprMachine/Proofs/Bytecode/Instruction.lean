/-
  ExprMachine.Proofs.Bytecode.Instruction

  Code as a list of instructions, and its bytes. Fetching from the bytes of an
  instruction gives the instruction back, so that what walks over bytes can be
  reasoned about as walking over instructions.
-/
import ExprMachine.Bytecode.Compile

namespace ExprMachine

/-- An opcode and the index of its constant. -/
structure Instruction where
  op : Opcode
  index : Nat
deriving DecidableEq

namespace Instruction

/-- An instruction without a constant. -/
def bare (op : Opcode) : Instruction := ⟨op, 0⟩

/-- The bytes of an instruction. -/
def bytes (instruction : Instruction) : List UInt8 :=
  if instruction.op.takesConstant then
    [instruction.op.toByte, .ofNat (instruction.index / 256), .ofNat instruction.index]
  else [instruction.op.toByte]

/-- Whether the bytes say all about the instruction: the index fits two bytes, and an
    opcode without a constant has index zero. -/
def Encodable (instruction : Instruction) : Prop :=
  instruction.index < maxConstants ∧ (instruction.op.takesConstant = false → instruction.index = 0)

theorem encodable_bare {op : Opcode} : (bare op).Encodable :=
  ⟨show 0 < maxConstants by decide, fun _ => rfl⟩

/-- The two bytes of an index make the index. -/
theorem word_of_index {index : Nat} (h : index < maxConstants) :
    Chunk.word (.ofNat (index / 256)) (.ofNat index) = index := by
  simp only [Chunk.word, maxConstants] at h ⊢
  simp only [UInt8.toNat_ofNat']
  omega

/-- The first byte of an instruction, and what fetching there gives. -/
theorem exists_fetch_bytes {instruction : Instruction} (h : instruction.Encodable) :
    ∃ byte tail, instruction.bytes = byte :: tail ∧
      ∀ rest, Chunk.fetch byte (tail ++ rest) =
        (.instruction instruction.op instruction.index, rest) := by
  obtain ⟨op, index⟩ := instruction
  obtain ⟨hindex, hzero⟩ := h
  by_cases hop : op.takesConstant = true
  · refine ⟨op.toByte, [.ofNat (index / 256), .ofNat index], by simp [bytes, hop], fun rest => ?_⟩
    simp [Chunk.fetch, hop, word_of_index hindex]
  · have hop' : op.takesConstant = false := by simpa using hop
    have hindex0 : index = 0 := hzero hop'
    exact ⟨op.toByte, [], by simp [bytes, hop'], fun rest => by simp [Chunk.fetch, hop', hindex0]⟩

/-- The size that a fetched instruction reports is the number of its bytes. -/
theorem size_fetched (instruction : Instruction) :
    (Chunk.Fetched.instruction instruction.op instruction.index).size =
      instruction.bytes.length := by
  by_cases h : instruction.op.takesConstant <;> simp [Chunk.Fetched.size, bytes, h]

end Instruction

-- ============================================================================
-- Code
-- ============================================================================

namespace Chunk

/-- Induction over code along what is fetched from it: what holds of no code, and of code
    if it holds of what fetching leaves, holds of all code. -/
@[elab_as_elim]
theorem fetchInduction {motive : List UInt8 → Prop} (nil : motive [])
    (cons : ∀ byte rest, motive (fetch byte rest).2 → motive (byte :: rest))
    (code : List UInt8) : motive code := by
  induction hlength : code.length using Nat.strongRecOn generalizing code with
  | _ length ih =>
    subst hlength
    cases code with
    | nil => exact nil
    | cons byte rest =>
      exact cons byte rest
        (ih _ (Nat.lt_succ_of_le (length_fetch_le byte rest)) (fetch byte rest).2 rfl)

/-- The bytes of some instructions, one after the other. -/
def bytesOf (code : List Instruction) : List UInt8 :=
  code.flatMap Instruction.bytes

@[simp] theorem bytesOf_nil : bytesOf [] = [] := rfl

@[simp] theorem bytesOf_cons (instruction : Instruction) (code : List Instruction) :
    bytesOf (instruction :: code) = instruction.bytes ++ bytesOf code := rfl

@[simp] theorem bytesOf_append (code more : List Instruction) :
    bytesOf (code ++ more) = bytesOf code ++ bytesOf more :=
  List.flatMap_append

end Chunk

end ExprMachine
