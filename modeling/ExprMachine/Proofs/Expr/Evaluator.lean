/-
  ExprMachine.Proofs.Expr.Evaluator

  The meaning of expressions, by recursion over the tree and without any machine.
  Every part is evaluated, from left to right, also those of `and` and `or`; the first
  part that has no value decides the error.
-/
import ExprMachine.Machine.Operations
import ExprMachine.Proofs.Expr.Induction

namespace ExprMachine

-- ============================================================================
-- Operators
-- ============================================================================

namespace Context

/-- What an operator before an operand makes of it. -/
def applyUnary (context : Context) (symbol : String) (operand : Value) : Except RunError Value :=
  if symbol = "+" then .ok operand
  else if symbol = "-" then operand.negate
  else if symbol = "!" ∨ symbol = "not" then .ok (.bool (!operand.isTruthy context.host))
  else .error (.invalidOperand symbol operand.kind)

/-- What an operator between two operands makes of them. Apart from the equalities, the
    test of membership and the two connectives, an operator is what its overloads say. -/
def applyBinary (context : Context) (symbol : String) (left right : Value) :
    Except RunError Value :=
  if symbol = "==" then .ok (.bool (left.looseEq right))
  else if symbol = "!=" then .ok (.bool (!left.looseEq right))
  else if symbol = "in" then context.isMember left right
  else if symbol = "and" ∨ symbol = "&&" then
    .ok (.bool (left.isTruthy context.host && right.isTruthy context.host))
  else if symbol = "or" ∨ symbol = "||" then
    .ok (.bool (left.isTruthy context.host || right.isTruthy context.host))
  else context.applyOperator symbol left right

end Context

-- ============================================================================
-- Expressions
-- ============================================================================

namespace Expr

mutual

/-- The value of an expression. -/
def eval (context : Context) : Expr → Except RunError Value
  | .int value => .ok (.int value)
  | .float bits => .ok (.float (.ofBits bits))
  | .text value => .ok (.text value)
  | .bool value => .ok (.bool value)
  | .nil => .ok .nil
  | .identifier name => .ok (context.environment.get context.host name)
  | .unary symbol operand => do
    let value ← eval context operand
    context.applyUnary symbol value
  | .binary symbol left right => do
    let left ← eval context left
    let right ← eval context right
    context.applyBinary symbol left right
  | .property receiver name => do
    let value ← eval context receiver
    return value.get context.host name
  | .call name arguments => do
    let arguments ← evalAll context arguments
    context.invoke context.environment name arguments
  | .methodCall receiver name arguments => do
    let receiver ← eval context receiver
    let arguments ← evalAll context arguments
    context.invoke receiver name arguments
  | .list items => do
    let items ← evalAll context items
    return .list items

/-- The values of some expressions, from left to right. -/
def evalAll (context : Context) : List Expr → Except RunError (List Value)
  | [] => .ok []
  | expr :: exprs => do
    let value ← eval context expr
    let values ← evalAll context exprs
    return value :: values

end

theorem eval_property (context : Context) (receiver : Expr) (name : String) :
    eval context (.property receiver name) =
      (eval context receiver).map (·.get context.host name) := by
  rw [eval]
  cases eval context receiver <;> rfl

theorem eval_list (context : Context) (items : List Expr) :
    eval context (.list items) = (evalAll context items).map .list := by
  rw [eval]
  cases evalAll context items <;> rfl

/-- The computations of which another one consists have values when it has one. -/
theorem exists_of_bind_ok {α β : Type} {outcome : Except RunError α}
    {next : α → Except RunError β} {result : β} (h : outcome >>= next = .ok result) :
    ∃ value, outcome = .ok value ∧ next value = .ok result := by
  cases outcome with
  | error error => cases h
  | ok value => exact ⟨value, rfl, h⟩

theorem length_of_evalAll {context : Context} {exprs : List Expr} {values : List Value}
    (h : evalAll context exprs = .ok values) : values.length = exprs.length := by
  induction exprs generalizing values with
  | nil => cases h; rfl
  | cons expr exprs ih =>
    rw [evalAll] at h
    obtain ⟨value, -, h⟩ := exists_of_bind_ok h
    obtain ⟨others, hothers, h⟩ := exists_of_bind_ok h
    cases h
    rw [List.length_cons, List.length_cons, ih hothers]

-- ============================================================================
-- Lists that can be counted
-- ============================================================================

mutual

/-- Whether the number of items of every list in an expression is a 64-bit integer, as
    it is for every list that fits a memory of 64-bit addresses. -/
def listsFit : Expr → Bool
  | .unary _ operand => listsFit operand
  | .binary _ left right => listsFit left && listsFit right
  | .methodCall receiver _ arguments => listsFit receiver && allListsFit arguments
  | .call _ arguments => allListsFit arguments
  | .property receiver _ => listsFit receiver
  | .list items => decide (items.length < 2 ^ 63) && allListsFit items
  | _ => true

/-- Whether this is so in some expressions. -/
def allListsFit : List Expr → Bool
  | [] => true
  | expr :: exprs => listsFit expr && allListsFit exprs

end

/-- A length that 64 bits hold is a count again. -/
theorem toNatClampNeg_ofNat {length : Nat} (hlength : length < 2 ^ 63) :
    ¬ Int64.ofNat length < 0 ∧ (Int64.ofNat length).toNatClampNeg = length := by
  have hint : (Int64.ofNat length).toInt = length := Int64.toInt_ofNat_of_lt hlength
  constructor
  · rw [Int64.lt_iff_toInt_lt, hint]
    simp
  · rw [Int64.toNatClampNeg, hint, Int.toNat_natCast]

theorem allListsFit_iff {exprs : List Expr} :
    allListsFit exprs = true ↔ ∀ expr ∈ exprs, listsFit expr = true := by
  induction exprs with
  | nil => simp [allListsFit]
  | cons expr exprs ih => simp [allListsFit, ih]

end Expr

end ExprMachine
