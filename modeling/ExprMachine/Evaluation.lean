/-
  ExprMachine.Evaluation

  From a source text to its value: tokens, expression, chunk, run. Each stage has its
  own errors, which pass through unchanged.
-/
import ExprMachine.Bytecode.Compile
import ExprMachine.Expr.Parser
import ExprMachine.Machine.Run
import ExprMachine.Operators.Standard
import ExprMachine.Token.Scan

namespace ExprMachine

/-- Why a source text has no value. -/
inductive Failure where
  | lex (error : LexError)
  | parse (error : ParseError)
  | compile (error : CompileError)
  | run (error : RunError)
deriving DecidableEq, Repr

namespace Failure

/-- The stable code of the error. -/
def code : Failure → String
  | .lex error => error.code
  | .parse error => error.code
  | .compile error => error.code
  | .run error => error.code

/-- The whole message. -/
def toText : Failure → String
  | .lex error => error.toText
  | .parse error => error.toText
  | .compile error => error.message
  | .run error => error.message

end Failure

namespace Source

/-- The tokens of a source text in the standard language. -/
def tokens (source : String) : Except Failure (List Token) :=
  (Token.scan Token.standardKeywords source).mapError .lex

/-- The expression of a source text in the standard language. -/
def expr (source : String) : Except Failure Expr :=
  match tokens source with
  | .error failure => .error failure
  | .ok tokens => (Expr.parse .standard tokens).mapError .parse

/-- The chunk of a source text in the standard language. -/
def chunk (source : String) : Except Failure Chunk :=
  match expr source with
  | .error failure => .error failure
  | .ok expr => expr.compile.mapError .compile

/-- The value of a source text in the standard language. -/
def evaluate (context : Context) (source : String) : Except Failure Value :=
  match chunk source with
  | .error failure => .error failure
  | .ok chunk => (Machine.run context chunk).mapError .run

end Source

end ExprMachine
