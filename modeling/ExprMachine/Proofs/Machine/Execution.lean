/-
  ExprMachine.Proofs.Machine.Execution

  Runs of the machine, instruction by instruction instead of byte by byte, and what
  single instructions do to a stack that has the values they need.
-/
import ExprMachine.Machine.Run
import ExprMachine.Proofs.Bytecode.Instruction

namespace ExprMachine.Machine

variable {context : Context} {constants : Array Constant} {offset : Nat} {stack : Stack}

-- ============================================================================
-- Literals without a constant
-- ============================================================================

theorem step_bool (value : Bool) (index : Nat) :
    step context constants offset (if value then .pushTrue else .pushFalse) index stack =
      .ok (.bool value :: stack) := by
  cases value <;> simp [step]

theorem step_nil (index : Nat) :
    step context constants offset .pushNil index stack = .ok (.nil :: stack) := by
  simp only [step]

-- ============================================================================
-- Runs over bytes
-- ============================================================================

theorem runFrom_nil : runFrom context constants offset stack [] = .ok stack := by
  rw [runFrom]

/-- A run carries out what it fetches first and goes on after it. -/
theorem runFrom_cons (byte : UInt8) (rest : List UInt8) :
    runFrom context constants offset stack (byte :: rest) =
      stepFetched context constants offset (Chunk.fetch byte rest).1 stack >>= fun stack =>
        runFrom context constants (offset + (Chunk.fetch byte rest).1.size) stack
          (Chunk.fetch byte rest).2 := by
  rw [runFrom]
  split
  rename_i fetched after hfetch
  cases hstep : stepFetched context constants offset fetched stack <;> simp [hfetch, hstep] <;> rfl

-- ============================================================================
-- Runs over instructions
-- ============================================================================

/-- Carries out instructions, the first of which stands at an offset. -/
def execute (context : Context) (constants : Array Constant) (offset : Nat) :
    List Instruction → Stack → Except RunError Stack
  | [], stack => .ok stack
  | instruction :: code, stack => do
    let stack ← step context constants offset instruction.op instruction.index stack
    execute context constants (offset + instruction.bytes.length) code stack

theorem execute_append (code more : List Instruction) :
    execute context constants offset (code ++ more) stack =
      execute context constants offset code stack >>=
        execute context constants (offset + (Chunk.bytesOf code).length) more := by
  induction code generalizing offset stack with
  | nil => rfl
  | cons instruction code ih =>
    simp only [List.cons_append, execute, bind_assoc, Chunk.bytesOf_cons, List.length_append]
    congr 1
    funext after
    rw [ih, Nat.add_assoc]

theorem execute_singleton (instruction : Instruction) :
    execute context constants offset [instruction] stack =
      step context constants offset instruction.op instruction.index stack := by
  simp only [execute]
  exact bind_pure _

/-- Running the bytes of an instruction carries the instruction out and goes on after
    its last byte. -/
theorem runFrom_bytes {instruction : Instruction} (h : instruction.Encodable)
    (rest : List UInt8) :
    runFrom context constants offset stack (instruction.bytes ++ rest) =
      step context constants offset instruction.op instruction.index stack >>=
        fun stack => runFrom context constants (offset + instruction.bytes.length) stack rest := by
  obtain ⟨byte, tail, hbytes, hfetch⟩ := Instruction.exists_fetch_bytes h
  rw [← Instruction.size_fetched, hbytes, List.cons_append, runFrom_cons, hfetch rest]
  rfl

/-- Running the bytes of some instructions carries them out in order. -/
theorem runFrom_bytesOf {code : List Instruction}
    (h : ∀ instruction ∈ code, instruction.Encodable) :
    runFrom context constants offset stack (Chunk.bytesOf code) =
      execute context constants offset code stack := by
  induction code generalizing offset stack with
  | nil => rw [Chunk.bytesOf_nil, runFrom_nil]; rfl
  | cons instruction code ih =>
    rw [Chunk.bytesOf_cons, runFrom_bytes (h instruction (List.mem_cons_self ..)), execute]
    congr 1
    funext after
    exact ih fun other hother => h other (List.mem_cons_of_mem _ hother)

end ExprMachine.Machine
