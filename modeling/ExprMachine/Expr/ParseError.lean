/-
  ExprMachine.Expr.ParseError

  Why a list of tokens is not an expression.
-/
import ExprMachine.Token.Basic

namespace ExprMachine

/-- The number of levels that an expression may nest. It bounds the depth of every
    tree that is read, and how deeply the reading itself nests. -/
def maxDepth : Nat := 256

/-- The two kinds of sequences of expressions between brackets. -/
inductive SequenceKind where
  | arguments
  | items
deriving DecidableEq, Repr

namespace SequenceKind

/-- The bracket that ends the sequence. -/
def close : SequenceKind → String
  | .arguments => ")"
  | .items => "]"

/-- The sequence as error messages name it. -/
def description : SequenceKind → String
  | .arguments => "argument list"
  | .items => "list"

end SequenceKind

/-- What is wrong at some token. Tokens that were found are given as messages
    describe them. -/
inductive ParseCause where
  /-- This token cannot stand here. -/
  | unexpectedToken (found : String)
  /-- The tokens end where an operand should start. -/
  | unexpectedEnd
  /-- A closing bracket should stand here. -/
  | expectedClose (close found : String)
  /-- No name follows a point. -/
  | expectedName (found : String)
  /-- Not all that follows a point are indexes. -/
  | expectedIndex (found : String)
  /-- A sequence has a comma where an expression should start. -/
  | strayComma (kind : SequenceKind)
  /-- A sequence has a comma before its closing bracket. -/
  | trailingComma (kind : SequenceKind)
  /-- Two expressions of a sequence have no comma between them. -/
  | expectedComma (kind : SequenceKind) (found : String)
  /-- The tokens end inside parentheses. -/
  | unclosedParenthesis
  /-- The tokens end inside a sequence. -/
  | unclosedSequence (kind : SequenceKind)
  /-- A number with a point that denotes no float. -/
  | invalidFloat (literal : String)
  /-- A number without a point that is no 64-bit integer. -/
  | integerOutOfRange (literal : String)
  /-- The expression nests more than `maxDepth` levels. -/
  | nestedTooDeeply
deriving DecidableEq, Repr

/-- The place and the reason of a failed reading. -/
structure ParseError where
  position : Position
  cause : ParseCause
deriving DecidableEq, Repr

namespace ParseError

/-- The stable code of the error. -/
def code (error : ParseError) : String :=
  match error.cause with
  | .unexpectedToken _ | .expectedClose .. => "RB-P001"
  | .unexpectedEnd => "RB-P002"
  | .expectedName _ | .expectedIndex _ => "RB-P003"
  | .strayComma _ | .trailingComma _ | .expectedComma .. => "RB-P004"
  | .unclosedParenthesis | .unclosedSequence _ => "RB-P005"
  | .invalidFloat _ | .integerOutOfRange _ => "RB-P006"
  | .nestedTooDeeply => "RB-P007"

/-- What is wrong, without the place. -/
def message (error : ParseError) : String :=
  match error.cause with
  | .unexpectedToken found => "unexpected token " ++ found
  | .unexpectedEnd => "unexpected end of expression"
  | .expectedClose close found => "expected '" ++ close ++ "', got " ++ found
  | .expectedName found => "expected name after '.', got " ++ found
  | .expectedIndex found => "expected name or index after '.', got '" ++ found ++ "'"
  | .strayComma kind => "unexpected ',' in " ++ kind.description
  | .trailingComma kind => "trailing ',' in " ++ kind.description
  | .expectedComma kind found =>
    "expected ',' or '" ++ kind.close ++ "' in " ++ kind.description ++ ", got " ++ found
  | .unclosedParenthesis => "unclosed bracket, expected ')' before end of expression"
  | .unclosedSequence kind =>
    "unclosed " ++ kind.description ++ ", expected '" ++ kind.close ++
      "' before end of expression"
  | .invalidFloat literal => "invalid float literal '" ++ literal ++ "'"
  | .integerOutOfRange literal => "integer literal '" ++ literal ++ "' is out of range"
  | .nestedTooDeeply =>
    "expression nested too deeply (limit " ++ toString maxDepth ++ ")"

/-- The whole message, with the place. -/
def toText (error : ParseError) : String :=
  "Parse error at " ++ error.position.toText ++ ": " ++ error.message

end ParseError

end ExprMachine
