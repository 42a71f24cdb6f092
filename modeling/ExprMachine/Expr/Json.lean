/-
  ExprMachine.Expr.Json

  Expressions as JSON documents: an object with one member, which is named for the
  kind of the root and holds its parts.
-/
import ExprMachine.Expr.Basic
import ExprMachine.Json.Basic

namespace ExprMachine.Expr

mutual

/-- The document of an expression. -/
def toJson : Expr → Json
  | .unary symbol operand =>
    .object [("Unary", .object [("operator", .string symbol), ("operand", toJson operand)])]
  | .binary symbol left right =>
    .object [("Binary", .object
      [("operator", .string symbol), ("left", toJson left), ("right", toJson right)])]
  | .methodCall receiver name arguments =>
    .object [("MethodCall", .object
      [("receiver", toJson receiver), ("name", .string name),
       ("args", .array (toJsonAll arguments))])]
  | .call name arguments =>
    .object [("FunctionCall", .object
      [("name", .string name), ("args", .array (toJsonAll arguments))])]
  | .property receiver name =>
    .object [("Property", .object [("receiver", toJson receiver), ("name", .string name)])]
  | .identifier name => .object [("Identifier", .object [("name", .string name)])]
  | .bool value => .object [("Bool", .object [("value", .bool value)])]
  | .nil => .string "Nil"
  | .float bits => .object [("Float", .object [("value", .float (.ofBits bits))])]
  | .int value => .object [("Int", .object [("value", .integer value.toInt)])]
  | .text value => .object [("String", .object [("value", .string value)])]
  | .list items => .object [("List", .object [("items", .array (toJsonAll items))])]

/-- The documents of some expressions. -/
def toJsonAll : List Expr → List Json
  | [] => []
  | expr :: exprs => toJson expr :: toJsonAll exprs

end

end ExprMachine.Expr
