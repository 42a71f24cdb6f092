/-
  ExprMachine.Expr.Basic

  Expression trees.
-/

namespace ExprMachine

/-- An expression. Operators are kept as they are spelt. -/
inductive Expr where
  /-- An operator before its operand. -/
  | unary (operator : String) (operand : Expr)
  /-- An operator between its operands. -/
  | binary (operator : String) (left right : Expr)
  /-- A call of a function that belongs to the receiver. -/
  | methodCall (receiver : Expr) (name : String) (arguments : List Expr)
  /-- A call of a function of the environment. -/
  | call (name : String) (arguments : List Expr)
  /-- A part of the receiver, by name or by index. -/
  | property (receiver : Expr) (name : String)
  /-- A part of the environment. -/
  | identifier (name : String)
  | bool (value : Bool)
  | nil
  /-- A float, kept as its 64 bits. -/
  | float (bits : UInt64)
  | int (value : Int64)
  | text (value : String)
  | list (items : List Expr)

namespace Expr

instance : Inhabited Expr := ⟨.nil⟩

/-- The name of the kind of the root. -/
def variantName : Expr → String
  | .unary .. => "Unary"
  | .binary .. => "Binary"
  | .methodCall .. => "MethodCall"
  | .call .. => "FunctionCall"
  | .property .. => "Property"
  | .identifier _ => "Identifier"
  | .bool _ => "Bool"
  | .nil => "Nil"
  | .float _ => "Float"
  | .int _ => "Int"
  | .text _ => "String"
  | .list _ => "List"

end Expr

end ExprMachine
