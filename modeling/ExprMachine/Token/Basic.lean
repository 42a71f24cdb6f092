/-
  ExprMachine.Token.Basic

  The tokens of the expression language and the reasons why a source text has
  none.
-/
import ExprMachine.Source.Position
import ExprMachine.Text.Quoted

namespace ExprMachine

/-! ## Tokens -/

/-- What a token is. -/
inductive TokenKind where
  | operator
  | number
  | text
  | bracket
  | identifier
  | endOfInput
deriving DecidableEq, Repr

/-- The name of a kind of token in printed token lists. -/
def TokenKind.name : TokenKind → String
  | .operator => "Operator"
  | .number => "Number"
  | .text => "String"
  | .bracket => "Bracket"
  | .identifier => "Identifier"
  | .endOfInput => "EndOfInput"

/-- A token: its kind, where it starts, and what it says. A text token says the
    text that the literal denotes, every other token its own characters. -/
structure Token where
  kind : TokenKind
  position : Position
  value : String
deriving DecidableEq, Repr

namespace Token

/-- Whether the token is this operator. -/
def isOperator (token : Token) (symbol : String) : Bool :=
  token.kind == .operator && token.value == symbol

/-- Whether the token is this bracket. -/
def isBracket (token : Token) (bracket : String) : Bool :=
  token.kind == .bracket && token.value == bracket

/-- Whether the token marks the end of the source. -/
def isEnd (token : Token) : Bool :=
  token.kind == .endOfInput

/-- The token as error messages name it. -/
def description (token : Token) : String :=
  match token.kind with
  | .endOfInput => "end of expression"
  | .text => "string " ++ Text.quoted token.value
  | _ => "'" ++ token.value ++ "'"

end Token

/-! ## Errors -/

/-- Why no token starts, or ends, at some place. -/
inductive LexCause where
  /-- The line or the source ends inside a text literal. -/
  | unterminatedText
  /-- A backslash in a text literal stands before this character. -/
  | unknownEscape (after : Char)
  /-- These characters start a number and do not make one. -/
  | malformedNumber (lexeme : String)
  /-- No token starts with this character. -/
  | unexpectedCharacter (c : Char)
deriving DecidableEq, Repr

/-- A place where a source text has no token. -/
structure LexError where
  position : Position
  cause : LexCause
deriving DecidableEq, Repr

namespace LexError

/-- The stable code of the error. -/
def code (error : LexError) : String :=
  match error.cause with
  | .unterminatedText => "RB-L001"
  | .unknownEscape _ => "RB-L002"
  | .malformedNumber _ => "RB-L003"
  | .unexpectedCharacter _ => "RB-L004"

/-- What is wrong, without the place. -/
def message (error : LexError) : String :=
  match error.cause with
  | .unterminatedText => "unterminated string literal"
  | .unknownEscape after => "unknown escape sequence '\\" ++ Text.asciiEscape after ++ "'"
  | .malformedNumber lexeme => "malformed number literal '" ++ lexeme ++ "'"
  | .unexpectedCharacter c => "unexpected character '" ++ Text.asciiEscape c ++ "'"

/-- The whole message, with the place. -/
def toText (error : LexError) : String :=
  "Lex error at " ++ error.position.toText ++ ": " ++ error.message

end LexError

end ExprMachine
