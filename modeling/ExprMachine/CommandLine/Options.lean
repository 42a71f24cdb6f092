/-
  ExprMachine.CommandLine.Options

  What can be asked of the command, and what the command leaves behind.
-/

namespace ExprMachine.CommandLine

/-! ## Options -/

/-- A stage whose result is printed in place of the value. -/
inductive Target where
  | tokens
  | ast
  | bytecode
  | fmt
deriving DecidableEq, Repr

/-- The stage of a name. -/
def Target.ofName? : String → Option Target
  | "tokens" => some .tokens
  | "ast" => some .ast
  | "bytecode" => some .bytecode
  | "fmt" => some .fmt
  | _ => none

/-- How errors are printed. -/
inductive ErrorFormat where
  | ansi
  | json
deriving DecidableEq, Repr

/-- The format of a name. -/
def ErrorFormat.ofName? : String → Option ErrorFormat
  | "ansi" => some .ansi
  | "json" => some .json
  | _ => none

/-- What is asked of the command. -/
structure Options where
  expression : Option String := none
  environmentFile : Option String := none
  environmentJson : Option String := none
  emit : Option Target := none
  json : Bool := false
  bare : Bool := false
  errorFormat : Option ErrorFormat := none
  noColor : Bool := false
  explain : Option String := none
deriving DecidableEq, Repr

/-! ## Outcomes -/

/-- What the command leaves behind: its status and what it prints. -/
structure Outcome where
  status : UInt32
  stdout : String
  stderr : String
deriving DecidableEq, Repr

end ExprMachine.CommandLine
