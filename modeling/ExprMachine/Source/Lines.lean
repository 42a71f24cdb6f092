/-
  ExprMachine.Source.Lines

  The lines of a source text. Every newline ends a line, so a text has one line
  more than it has newlines; carriage returns before the newline are not shown.
-/

namespace ExprMachine.Source

/-- The lines of a text, without their newlines. -/
def lines (source : String) : List (List Char) :=
  source.toList.splitOn '\n'

/-- How many lines a text has. -/
def lineCount (source : String) : Nat :=
  (lines source).length

/-- The text of the line of a number counted from one, without carriage returns at
    its end; empty where there is no such line. -/
def lineText (source : String) (number : Nat) : String :=
  match number with
  | 0 => ""
  | index + 1 =>
    let line := (lines source)[index]?.getD []
    String.ofList (line.reverse.dropWhile (· = '\r')).reverse

end ExprMachine.Source
