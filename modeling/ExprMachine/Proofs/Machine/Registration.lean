/-
  ExprMachine.Proofs.Machine.Registration

  What more overloads change. The first overload for two kinds counts, so that one
  registered after it is never reached; only an operator that had no overload for its
  operands can find one. A run that does not stop at such an operator is therefore the
  same run with more overloads.
-/
import ExprMachine.Proofs.Machine.Execution
import ExprMachine.Proofs.Operators.History

namespace ExprMachine

-- ============================================================================
-- Outcomes that do not ask for an overload
-- ============================================================================

/-- Whether an operator that overloads give a meaning to has none for its operands. The
    test of membership has no overloads, though it refuses operands with the same error. -/
def RunError.lacksOverload : RunError → Bool
  | .invalidOperator symbol _ _ => symbol != "in"
  | _ => false

/-- Whether an outcome is anything but the lack of an overload. -/
def Settled {α : Type} (outcome : Except RunError α) : Prop :=
  ∀ error, outcome = .error error → error.lacksOverload = false

theorem settled_ok {α : Type} (result : α) : Settled (.ok result) :=
  fun _ h => nomatch h

/-- The context with more overloads, registered after its own. -/
def Context.withOverloads (context : Context) (more : List (String × Overload)) : Context :=
  { context with operators := context.operators.registerAll more }

variable {context : Context} {more : List (String × Overload)}

theorem Context.applyOperator_withOverloads {symbol : String} {left right : Value}
    (overloaded : symbol ≠ "in") (settled : Settled (context.applyOperator symbol left right)) :
    (context.withOverloads more).applyOperator symbol left right =
      context.applyOperator symbol left right := by
  cases hresolve : context.operators.resolve? symbol left.kind right.kind with
  | none =>
    -- Without an overload the outcome would be the error that is excluded.
    have outcome : context.applyOperator symbol left right =
        .error (.invalidOperator symbol left.kind right.kind) := by
      rw [applyOperator, hresolve]
    have lacks := settled _ outcome
    simp [RunError.lacksOverload, overloaded] at lacks
  | some overload =>
    have same : (context.withOverloads more).operators.resolve? symbol left.kind right.kind =
        some overload := Registry.resolve?_registerAll hresolve
    rw [applyOperator, applyOperator, hresolve, same]

-- ============================================================================
-- Steps
-- ============================================================================

namespace Machine

variable {constants : Array Constant} {offset index : Nat} {stack : Stack}

theorem stepOverloaded_withOverloads {symbol : String} (overloaded : symbol ≠ "in")
    (settled : Settled (stepOverloaded context symbol offset stack)) :
    stepOverloaded (context.withOverloads more) symbol offset stack =
      stepOverloaded context symbol offset stack := by
  match stack with
  | [] | [_] => rfl
  | right :: left :: stack =>
    have applied : Settled (context.applyOperator symbol left right) := by
      intro error herror
      exact settled error (by simp only [stepOverloaded, popPair, herror])
    simp only [stepOverloaded, popPair,
      Context.applyOperator_withOverloads overloaded applied]

/-- A step that does not lack an overload is the same step with more overloads. -/
theorem step_withOverloads {op : Opcode}
    (settled : Settled (step context constants offset op index stack)) :
    step (context.withOverloads more) constants offset op index stack =
      step context constants offset op index stack := by
  cases op
  case add | sub | mul | div | mod | pow | less | greater | lessEqual | greaterEqual =>
    exact stepOverloaded_withOverloads (by decide) settled
  -- No other instruction looks at the overloads.
  all_goals rfl

theorem stepFetched_withOverloads {fetched : Chunk.Fetched}
    (settled : Settled (stepFetched context constants offset fetched stack)) :
    stepFetched (context.withOverloads more) constants offset fetched stack =
      stepFetched context constants offset fetched stack := by
  cases fetched with
  | instruction op index => exact step_withOverloads settled
  | unknown | truncated => rfl

-- ============================================================================
-- Runs
-- ============================================================================

/-- What the steps keep the run keeps: a run that does not lack an overload is the same
    run with more overloads. -/
theorem runFrom_withOverloads (code : List UInt8)
    (settled : Settled (runFrom context constants offset stack code)) :
    runFrom (context.withOverloads more) constants offset stack code =
      runFrom context constants offset stack code := by
  induction code using Chunk.fetchInduction generalizing offset stack with
  | nil => rw [runFrom_nil, runFrom_nil]
  | cons byte rest ih =>
    rw [runFrom_cons] at settled
    rw [runFrom_cons, runFrom_cons]
    cases hstep : stepFetched context constants offset (Chunk.fetch byte rest).1 stack with
    | error error =>
      rw [hstep] at settled
      rw [stepFetched_withOverloads (hstep ▸ settled), hstep]
      rfl
    | ok after =>
      rw [hstep] at settled
      rw [stepFetched_withOverloads (hstep ▸ settled_ok after), hstep]
      exact ih settled

theorem run_of_settled {chunk : Chunk} (settled : Settled (run context chunk)) :
    run (context.withOverloads more) chunk = run context chunk := by
  have whole : Settled (runFrom context chunk.constants 0 [] chunk.code.toList) := by
    intro error herror
    exact settled error (by rw [run, herror])
  rw [run, run, runFrom_withOverloads chunk.code.toList whole]

/-- Overloads that are registered on top of others change no run that works. A run with a
    value keeps it, and a run that fails keeps its error, unless an operator other than the
    test of membership lacked an overload. -/
theorem run_withOverloads (context : Context) (more : List (String × Overload)) (chunk : Chunk) :
    (∀ value, run context chunk = .ok value →
      run (context.withOverloads more) chunk = .ok value) ∧
    (∀ error, run context chunk = .error error → error.code ≠ "RB-R002" →
      run (context.withOverloads more) chunk = .error error) ∧
    (∀ left right, run context chunk = .error (.invalidOperator "in" left right) →
      run (context.withOverloads more) chunk = .error (.invalidOperator "in" left right)) := by
  refine ⟨fun value h => ?_, fun error h other => ?_, fun left right h => ?_⟩
  · rw [run_of_settled (h ▸ settled_ok value), h]
  · have settled : Settled (run context chunk) := by
      rw [h]
      rintro _ ⟨⟩
      cases error with
      | invalidOperator => exact absurd rfl other
      | _ => rfl
    rw [run_of_settled settled, h]
  · have settled : Settled (run context chunk) := by
      rw [h]
      rintro _ ⟨⟩
      rfl
    rw [run_of_settled settled, h]

/-- A second overload for the kinds of the first is not reached. -/
theorem run_withOverloads_first :
    let chunk : Chunk := ⟨#[7, 0, 0, 7, 0, 1, 0], #[.scalar (.int 1), .scalar (.int 2)]⟩
    let first : Overload := ⟨.int, .int, fun left _ => .ok left⟩
    let second : Overload := ⟨.int, .int, fun _ right => .ok right⟩
    let context : Context := ⟨.empty, Registry.empty.register "+" first, .nil⟩
    run context chunk = .ok (.int 1) ∧
      run (context.withOverloads [("+", second)]) chunk = .ok (.int 1) := by
  intro chunk first second context
  have before : run context chunk = .ok (.int 1) := by
    with_unfolding_all rfl
  exact ⟨before, (run_withOverloads context _ chunk).1 _ before⟩

end Machine

end ExprMachine
