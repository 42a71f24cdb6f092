/-
  ExprMachine.Token.Json

  Tokens as JSON documents.
-/
import ExprMachine.Json.Basic
import ExprMachine.Token.Basic

namespace ExprMachine

/-- The document of a place. -/
def Position.toJson (place : Position) : Json :=
  .object [("line", .integer place.line), ("offset", .integer place.offset)]

/-- The document of a token. -/
def Token.toJson (token : Token) : Json :=
  .object
    [("kind", .string token.kind.name),
     ("position", token.position.toJson),
     ("value", .string token.value)]

end ExprMachine
