/-
  ExprMachine.Executable.Packages

  The packages that the executable is built with.
-/
import ExprMachine.CommandLine.Run
import ExprMachine.Executable.Arguments
import ExprMachine.Executable.Reader
import ExprMachine.Executable.Writer

namespace ExprMachine.Executable

open CommandLine

/-- A library for JSON. It says of a text that is no document only that it is none. -/
def codec : Json.Codec where
  read text :=
    match read? text with
    | some document => .ok document
    | none => .error "the text is no JSON document"
  display := compact
  write document := .ok (compact document)
  writePretty document := .ok (pretty document)

/-- The packages of the executable. -/
def packages : Packages where
  arguments := parse
  json := codec

end ExprMachine.Executable
