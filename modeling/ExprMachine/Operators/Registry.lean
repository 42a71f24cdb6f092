/-
  ExprMachine.Operators.Registry

  The overloads of operators. Each is for two exact kinds of operands; of those
  registered for one symbol and the same kinds, the first counts.
-/
import ExprMachine.Value.Operand

namespace ExprMachine

/-! ## Overloads -/

/-- One meaning of an operator, for operands of two kinds. -/
structure Overload where
  left : Kind
  right : Kind
  apply : Value → Value → Except CallError Value

namespace Overload

/-- The overload of a function on typed operands. Operands of other kinds are refused,
    the left one first. -/
def ofTyped {α β : Type} (left : Operand α) (right : Operand β)
    (apply : α → β → Except CallError Value) : Overload where
  left := left.kind
  right := right.kind
  apply := fun a b =>
    match left.narrow a with
    | .error error => .error error
    | .ok a =>
      match right.narrow b with
      | .error error => .error error
      | .ok b => apply a b

/-- The kinds of an overload in debugging output. -/
def debugText (overload : Overload) : String :=
  "Overload(" ++ overload.left.name ++ ", " ++ overload.right.name ++ ")"

/-- Whether an overload is for operands of these kinds. -/
def accepts (overload : Overload) (left right : Kind) : Bool :=
  overload.left == left && overload.right == right

end Overload

/-! ## Registries -/

/-- Overloads with their symbols, in the order of registration. -/
structure Registry where
  entries : List (String × Overload)

namespace Registry

/-- No overloads. -/
def empty : Registry := ⟨[]⟩

/-- Adds an overload after all others. -/
def register (registry : Registry) (symbol : String) (overload : Overload) : Registry :=
  ⟨registry.entries ++ [(symbol, overload)]⟩

/-- The overloads of a symbol, in the order of registration. -/
def overloads (registry : Registry) (symbol : String) : List Overload :=
  (registry.entries.filter (·.1 == symbol)).map (·.2)

/-- The overload of a symbol for operands of two kinds. -/
def resolve? (registry : Registry) (symbol : String) (left right : Kind) : Option Overload :=
  (registry.overloads symbol).find? (·.accepts left right)

/-- Where among the overloads of the symbol this overload stands. -/
def position? (registry : Registry) (symbol : String) (left right : Kind) : Option Nat :=
  (registry.overloads symbol).findIdx? (·.accepts left right)

/-! ## Registering -/

@[simp] theorem overloads_register (registry : Registry) (symbol other : String)
    (overload : Overload) :
    (registry.register symbol overload).overloads other =
      registry.overloads other ++ (if symbol = other then [overload] else []) := by
  by_cases h : symbol = other <;> simp [overloads, register, List.filter_append, h]

end Registry

end ExprMachine
