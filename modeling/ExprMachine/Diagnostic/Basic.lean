/-
  ExprMachine.Diagnostic.Basic

  Errors as they are shown to the author of an expression: a message with a code,
  places in the source, notes and a suggestion.
-/
import ExprMachine.Evaluation

namespace ExprMachine

/-- A place in the source and what to say there. -/
structure Label where
  position : Position
  /-- How many code points the place covers. -/
  length : Nat
  message : String
  /-- Whether this is the place of the error itself. -/
  isPrimary : Bool
deriving DecidableEq, Repr

/-- An error for display. -/
structure Diagnostic where
  message : String
  code : Option String := none
  labels : List Label := []
  notes : List String := []
  suggestion : Option String := none
  source : Option String := none
deriving DecidableEq, Repr

namespace Diagnostic

/-- How bad a diagnostic is. All diagnostics are errors. -/
def severity : String := "error"

/-- Attaches the source text. -/
def withSource (diagnostic : Diagnostic) (source : String) : Diagnostic :=
  { diagnostic with source := some source }

/-- A label for one character that is the place of the error. -/
def labelAt (position : Position) (message : String) : Label :=
  ⟨position, 1, message, true⟩

/-! ## The errors of the stages -/

/-- A source text without tokens. -/
def ofLexError (error : LexError) : Diagnostic where
  message := error.message
  code := some error.code
  labels := [labelAt error.position "here"]
  suggestion := match error.cause with
    | .unterminatedText => some "close the literal with the quote it was opened with"
    | .unknownEscape _ =>
      some "valid escapes are \\a \\b \\f \\n \\r \\t \\v \\\\ \\' and the enclosing quote"
    | _ => none

/-- Whether an error is about a bracket that is never closed. -/
def isUnclosed : ParseCause → Bool
  | .unclosedParenthesis | .unclosedSequence _ => true
  | _ => false

/-- Tokens that are no expression. -/
def ofParseError (error : ParseError) : Diagnostic where
  message := error.message
  code := some error.code
  labels := [labelAt error.position (if isUnclosed error.cause then "opened here" else "here")]
  notes := match error.cause with
    | .unexpectedEnd => ["the expression ends before an operand"]
    | _ => []
  suggestion := if isUnclosed error.cause then some "add the missing closing bracket" else none

/-- An expression without a compiled form. -/
def ofCompileError (error : CompileError) : Diagnostic where
  message := error.message
  code := some error.code

/-- A run without a value. -/
def ofRunError (error : RunError) : Diagnostic where
  message := error.message
  code := some error.code
  notes := match error with
    | .invalidOperator symbol left right =>
      ["no overload of '" ++ symbol ++ "' is registered for (" ++ left.name ++ ", " ++
        right.name ++ ")"]
    | .unresolvedCall _ =>
      ["calls resolve against the environment, or the receiver for methods"]
    | _ => []

/-- Any error on the way from a source text to its value. -/
def ofFailure : Failure → Diagnostic
  | .lex error => ofLexError error
  | .parse error => ofParseError error
  | .compile error => ofCompileError error
  | .run error => ofRunError error

end Diagnostic

end ExprMachine
