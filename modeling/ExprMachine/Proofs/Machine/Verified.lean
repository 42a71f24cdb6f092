/-
  ExprMachine.Proofs.Machine.Verified

  The check of chunks is exact. Where it finds a height, no run stops at a defect of the
  chunk, and a run that succeeds leaves a stack of that height. Where it finds an
  offset, no run succeeds, and a run that stops at a defect stops at that offset.
-/
import ExprMachine.Proofs.Bytecode.Verifier
import ExprMachine.Proofs.Machine.Execution

namespace ExprMachine

-- ============================================================================
-- Defects
-- ============================================================================

/-- The offset of a defect of the chunk; the other errors are failures of the run. -/
def RunError.defectOffset? : RunError → Option Nat
  | .unknownInstruction _ offset | .malformedChunk offset _ => some offset
  | .invalidOperator .. | .unresolvedCall _ | .callFailed .. | .invalidOperand .. => none

theorem RunError.defectOffset?_eq_none_iff {error : RunError} :
    error.defectOffset? = none ↔ error.code ≠ "RB-R001" ∧ error.code ≠ "RB-R006" := by
  cases error <;> simp [defectOffset?, code]

namespace Machine

open Chunk (taken? given settle? heightAfter? checkFrom)

variable {context : Context} {constants : Array Constant} {offset index : Nat} {stack : Stack}

-- ============================================================================
-- One step
-- ============================================================================

/-- Whether a result is what the check of one step says: a stack of the expected height
    or a failure of the run, and without an expected height a defect at the offset. -/
def Agrees (offset : Nat) (result : Except RunError Stack) : Option Nat → Prop
  | some height =>
    match result with
    | .ok stack => stack.length = height
    | .error error => error.defectOffset? = none
  | none => ∃ error, result = .error error ∧ error.defectOffset? = some offset

theorem defectOffset?_applyOperator {symbol : String} {left right : Value} {error : RunError}
    (h : context.applyOperator symbol left right = .error error) : error.defectOffset? = none := by
  unfold Context.applyOperator at h
  split at h
  · cases h; rfl
  · split at h <;> cases h
    rfl

theorem defectOffset?_invoke {target : Value} {name : String} {arguments : List Value}
    {error : RunError} (h : context.invoke target name arguments = .error error) :
    error.defectOffset? = none := by
  unfold Context.invoke at h
  split at h
  · cases h; rfl
  · split at h <;> cases h
    rfl

theorem defectOffset?_isMember {needle container : Value} {error : RunError}
    (h : context.isMember needle container = .error error) : error.defectOffset? = none := by
  unfold Context.isMember at h
  split at h <;> cases h
  rfl

theorem defectOffset?_negate {value : Value} {error : RunError}
    (h : value.negate = .error error) : error.defectOffset? = none := by
  unfold Value.negate at h
  split at h
  · split at h <;> cases h
    rfl
  · cases h
  · cases h; rfl

theorem agrees_underflow {taken given : Nat} (h : ¬ taken ≤ stack.length) :
    Agrees offset (.error (.malformedChunk offset .stackUnderflow))
      (settle? stack.length taken given) := by
  rw [settle?, if_neg h]
  exact ⟨_, rfl, rfl⟩

theorem agrees_stepOverloaded (symbol : String) :
    Agrees offset (stepOverloaded context symbol offset stack) (settle? stack.length 2 1) := by
  match stack with
  | [] | [_] => exact agrees_underflow (by simp)
  | right :: left :: stack =>
    simp only [stepOverloaded, popPair]
    cases h : context.applyOperator symbol left right with
    | error error => exact defectOffset?_applyOperator h
    | ok value => simp [Agrees, settle?]

theorem agrees_stepTruth (test : Value → Value → Bool) :
    Agrees offset (stepTruth test offset stack) (settle? stack.length 2 1) := by
  match stack with
  | [] | [_] => exact agrees_underflow (by simp)
  | right :: left :: stack => simp [stepTruth, popPair, Agrees, settle?]

theorem agrees_stepMember :
    Agrees offset (stepMember context offset stack) (settle? stack.length 2 1) := by
  match stack with
  | [] | [_] => exact agrees_underflow (by simp)
  | container :: needle :: stack =>
    simp only [stepMember, popPair]
    cases h : context.isMember needle container with
    | error error => exact defectOffset?_isMember h
    | ok value => simp [Agrees, settle?]

/-- Taking many values needs a stack of as many. -/
theorem popMany_eq (count : Nat) (stack : Stack) :
    popMany offset count stack =
      if count ≤ stack.length then .ok ((stack.take count).reverse, stack.drop count)
      else .error (.malformedChunk offset .stackUnderflow) := by
  simp only [popMany, List.length_take]
  split <;> split <;> first | rfl | omega

theorem agrees_pop :
    Agrees offset (step context constants offset .pop index stack) (settle? stack.length 1 0) := by
  cases stack with
  | nil => exact agrees_underflow (by simp)
  | cons top stack => simp [step, pop, Agrees, settle?]

theorem agrees_not :
    Agrees offset (step context constants offset .not index stack) (settle? stack.length 1 1) := by
  cases stack with
  | nil => exact agrees_underflow (by simp)
  | cons top stack => simp [step, pop, Agrees, settle?]

theorem agrees_negate :
    Agrees offset (step context constants offset .negate index stack)
      (settle? stack.length 1 1) := by
  cases stack with
  | nil => exact agrees_underflow (by simp)
  | cons top stack =>
    simp only [step, pop]
    cases h : top.negate with
    | error error => exact defectOffset?_negate h
    | ok value => simp [Agrees, settle?]

-- ============================================================================
-- Instructions with constants
-- The constant is looked up before the stack is touched, in the machine as in the check,
-- so the cases follow what the index finds.
-- ============================================================================

theorem agrees_push :
    Agrees offset (step context constants offset .push index stack)
      (heightAfter? constants stack.length (.instruction .push index)) := by
  simp only [step, literalAt, constantAt, heightAfter?, taken?]
  rcases constants[index]? with _ | ⟨value⟩ | ⟨name, argumentCount⟩
  · exact ⟨_, rfl, rfl⟩
  · simp [Agrees, settle?, given]
  · exact ⟨_, rfl, rfl⟩

theorem agrees_fetch :
    Agrees offset (step context constants offset .fetch index stack)
      (heightAfter? constants stack.length (.instruction .fetch index)) := by
  simp only [step, nameAt, constantAt, heightAfter?, taken?]
  rcases constants[index]? with _ | ⟨⟨_⟩ | ⟨_⟩ | ⟨name⟩⟩ | ⟨name, argumentCount⟩
  · exact ⟨_, rfl, rfl⟩
  · exact ⟨_, rfl, rfl⟩
  · exact ⟨_, rfl, rfl⟩
  · simp [Agrees, settle?, given]
  · exact ⟨_, rfl, rfl⟩

theorem agrees_property :
    Agrees offset (step context constants offset .property index stack)
      (heightAfter? constants stack.length (.instruction .property index)) := by
  simp only [step, stepProperty, nameAt, constantAt, heightAfter?, taken?]
  rcases constants[index]? with _ | ⟨⟨_⟩ | ⟨_⟩ | ⟨name⟩⟩ | ⟨name, argumentCount⟩
  · exact ⟨_, rfl, rfl⟩
  · exact ⟨_, rfl, rfl⟩
  · exact ⟨_, rfl, rfl⟩
  · cases stack with
    | nil => exact agrees_underflow (by simp)
    | cons receiver stack => simp [pop, Agrees, settle?, given]
  · exact ⟨_, rfl, rfl⟩

theorem agrees_call :
    Agrees offset (step context constants offset .call index stack)
      (heightAfter? constants stack.length (.instruction .call index)) := by
  simp only [step, stepCall, callAt, constantAt, heightAfter?, taken?]
  rcases constants[index]? with _ | ⟨value⟩ | ⟨name, argumentCount⟩
  · exact ⟨_, rfl, rfl⟩
  · exact ⟨_, rfl, rfl⟩
  · simp only [popMany_eq, Option.bind_some]
    by_cases hcount : argumentCount ≤ stack.length
    · simp only [if_pos hcount, settle?]
      cases h : context.invoke context.environment name (stack.take argumentCount).reverse with
      | error error => exact defectOffset?_invoke h
      | ok value => simp [Agrees, given]
    · simp only [if_neg hcount]
      exact agrees_underflow hcount

theorem agrees_method :
    Agrees offset (step context constants offset .method index stack)
      (heightAfter? constants stack.length (.instruction .method index)) := by
  simp only [step, stepMethod, callAt, constantAt, heightAfter?, taken?]
  rcases constants[index]? with _ | ⟨value⟩ | ⟨name, argumentCount⟩
  · exact ⟨_, rfl, rfl⟩
  · exact ⟨_, rfl, rfl⟩
  · simp only [popMany_eq, Option.bind_some]
    by_cases hcount : argumentCount ≤ stack.length
    · simp only [if_pos hcount]
      cases hdrop : stack.drop argumentCount with
      | nil =>
        have hlength := congrArg List.length hdrop
        simp only [List.length_drop, List.length_nil] at hlength
        exact agrees_underflow (by omega)
      | cons receiver below =>
        have hlength := congrArg List.length hdrop
        simp only [List.length_drop, List.length_cons] at hlength
        have hheight : settle? stack.length (argumentCount + 1) 1 = some (below.length + 1) := by
          rw [settle?, if_pos (by omega)]
          congr 1
          omega
        simp only [pop, given, hheight]
        cases h : context.invoke receiver name (stack.take argumentCount).reverse with
        | error error => exact defectOffset?_invoke h
        | ok value => simp [Agrees]
    · simp only [if_neg hcount]
      exact agrees_underflow (by omega)

theorem agrees_list :
    Agrees offset (step context constants offset .list index stack)
      (heightAfter? constants stack.length (.instruction .list index)) := by
  simp only [step, stepList, countAt, constantAt, heightAfter?, taken?]
  rcases constants[index]? with _ | ⟨⟨count⟩ | ⟨_⟩ | ⟨_⟩⟩ | ⟨name, argumentCount⟩
  · exact ⟨_, rfl, rfl⟩
  · by_cases hnegative : count < 0
    · simpa only [if_pos hnegative] using ⟨_, rfl, rfl⟩
    · simp only [if_neg hnegative, popMany_eq]
      by_cases hcount : count.toNatClampNeg ≤ stack.length
      · simp [Agrees, settle?, hcount, given]
      · simp only [if_neg hcount, Option.bind_some]
        exact agrees_underflow hcount
  · exact ⟨_, rfl, rfl⟩
  · exact ⟨_, rfl, rfl⟩
  · exact ⟨_, rfl, rfl⟩

/-- Every step does what the check says. -/
theorem agrees_stepFetched (fetched : Chunk.Fetched) :
    Agrees offset (stepFetched context constants offset fetched stack)
      (heightAfter? constants stack.length fetched) := by
  cases fetched with
  | unknown byte => exact ⟨_, rfl, rfl⟩
  | truncated op => exact ⟨_, rfl, rfl⟩
  | instruction op index =>
    rw [stepFetched]
    cases op with
    | push => exact agrees_push
    | fetch => exact agrees_fetch
    | property => exact agrees_property
    | call => exact agrees_call
    | method => exact agrees_method
    | list => exact agrees_list
    | pop => exact agrees_pop
    | not => exact agrees_not
    | negate => exact agrees_negate
    | pushTrue | pushFalse | pushNil =>
      rw [Chunk.heightAfter?_literal (by simp)]
      simp [step, Agrees]
    | member => exact agrees_stepMember
    | equal | notEqual | and | or => exact agrees_stepTruth _
    | add | sub | mul | div | mod | pow | less | greater | lessEqual | greaterEqual =>
      exact agrees_stepOverloaded _

-- ============================================================================
-- Runs
-- ============================================================================

/-- What the check says about the rest of the code holds of every run from there. -/
theorem runFrom_checkFrom (context : Context) (constants : Array Constant) (offset : Nat)
    (stack : Stack) (code : List UInt8) :
    match checkFrom constants offset stack.length code with
    | .ok height => Agrees offset (runFrom context constants offset stack code) (some height)
    | .error violation =>
      ∃ error, runFrom context constants offset stack code = .error error ∧
        (error.defectOffset? = none ∨ error.defectOffset? = some violation) := by
  match code with
  | [] =>
    rw [checkFrom, runFrom_nil]
    exact rfl
  | byte :: rest =>
    have hstep : Agrees offset
        (stepFetched context constants offset (Chunk.fetch byte rest).1 stack)
        (heightAfter? constants stack.length (Chunk.fetch byte rest).1) :=
      agrees_stepFetched (Chunk.fetch byte rest).1
    rw [checkFrom, runFrom_cons]
    cases hheight : heightAfter? constants stack.length (Chunk.fetch byte rest).1 with
    | none =>
      rw [hheight] at hstep
      obtain ⟨error, herror, hoffset⟩ := hstep
      rw [herror]
      exact ⟨error, rfl, .inr hoffset⟩
    | some height =>
      rw [hheight] at hstep
      cases hresult : stepFetched context constants offset (Chunk.fetch byte rest).1 stack with
      | error error =>
        -- A failure of the run stops it before the check's outcome is reached.
        rw [hresult] at hstep
        dsimp only
        split
        · exact hstep
        · exact ⟨error, rfl, .inl hstep⟩
      | ok after =>
        rw [hresult] at hstep
        have hrest := runFrom_checkFrom context constants
          (offset + (Chunk.fetch byte rest).1.size) after (Chunk.fetch byte rest).2
        rw [hstep] at hrest
        exact hrest
termination_by code.length
decreasing_by exact Nat.lt_succ_of_le (Chunk.length_fetch_le byte rest)

/-- The check of chunks is exact. A run of a well-formed chunk does not stop at a defect,
    and if it succeeds its stack has the height that the check found. A run of any other
    chunk does not succeed, and if it stops at a defect it stops at the instruction that
    the check found. -/
theorem run_check (context : Context) (chunk : Chunk) :
    match chunk.check with
    | .ok height =>
      (∀ error, run context chunk = .error error →
        error.code ≠ "RB-R001" ∧ error.code ≠ "RB-R006") ∧
      (∀ stack, runFrom context chunk.constants 0 [] chunk.code.toList = .ok stack →
        stack.length = height)
    | .error violation =>
      ∃ error, run context chunk = .error error ∧
        (error.code = "RB-R001" ∨ error.code = "RB-R006" →
          error.defectOffset? = some violation) := by
  have hrun := runFrom_checkFrom context chunk.constants 0 [] chunk.code.toList
  rw [List.length_nil, ← Chunk.check] at hrun
  cases hcheck : chunk.check with
  | ok height =>
    rw [hcheck] at hrun
    simp only [run]
    cases hresult : runFrom context chunk.constants 0 [] chunk.code.toList with
    | ok stack =>
      rw [hresult] at hrun
      exact ⟨fun _ h => (by cases h), fun _ h => by cases h; exact hrun⟩
    | error error =>
      rw [hresult] at hrun
      refine ⟨fun other h => ?_, fun _ h => by cases h⟩
      cases h
      exact RunError.defectOffset?_eq_none_iff.1 hrun
  | error violation =>
    rw [hcheck] at hrun
    obtain ⟨error, herror, hoffset⟩ := hrun
    refine ⟨error, by rw [run, herror], fun hcode => ?_⟩
    rcases hoffset with hnone | hsome
    · obtain ⟨h₁, h₂⟩ := RunError.defectOffset?_eq_none_iff.1 hnone
      exact (hcode.elim h₁ h₂).elim
    · exact hsome

end Machine

end ExprMachine
