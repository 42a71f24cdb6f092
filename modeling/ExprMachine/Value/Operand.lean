/-
  ExprMachine.Value.Operand

  The types of operands: each belongs to one kind of values, and a value of another
  kind is refused.
-/
import ExprMachine.Value.Host

namespace ExprMachine

/-- A type of operands, the kind of its values, and how a value is read as one. -/
structure Operand (α : Type) where
  kind : Kind
  read? : Value → Option α
  toValue : α → Value

namespace Operand

/-- Reads a value as an operand, or says which kind it should have. -/
def narrow {α : Type} (operand : Operand α) (value : Value) : Except CallError α :=
  match operand.read? value with
  | some read => .ok read
  | none => .error (.mismatch operand.kind value.kind)

/-- Integers. -/
def int : Operand Int64 where
  kind := .int
  read? | .int value => some value | _ => none
  toValue := .int

/-- Floats. -/
def float : Operand Float where
  kind := .float
  read? | .float value => some value | _ => none
  toValue := .float

/-- Truth values. -/
def bool : Operand Bool where
  kind := .bool
  read? | .bool value => some value | _ => none
  toValue := .bool

/-- Texts. -/
def text : Operand String where
  kind := .text
  read? | .text value => some value | _ => none
  toValue := .text

/-- Lists. -/
def list : Operand (List Value) where
  kind := .list
  read? | .list items => some items | _ => none
  toValue := .list

/-- Maps. -/
def map : Operand (List (String × Value)) where
  kind := .map
  read? | .map entries => some entries | _ => none
  toValue := .map

end Operand

end ExprMachine
