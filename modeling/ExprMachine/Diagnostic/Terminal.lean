/-
  ExprMachine.Diagnostic.Terminal

  Diagnostics for a terminal: the message, the line of the source with a mark under
  the place, and the notes; in colour or without.
-/
import ExprMachine.Diagnostic.Basic
import ExprMachine.Source.Lines

namespace ExprMachine.Diagnostic

/-! ## Styles -/

/-- Puts a text into a style, given by the numbers of the terminal's control
    sequence. -/
def paint (color : Bool) (style text : String) : String :=
  if color then "\x1b[" ++ style ++ "m" ++ text ++ "\x1b[0m" else text

/-- Heavy letters. -/
def bold (color : Bool) (text : String) : String := paint color "1" text

/-- Heavy red letters. -/
def boldRed (color : Bool) (text : String) : String := paint color "1;31" text

/-- Cyan letters. -/
def cyan (color : Bool) (text : String) : String := paint color "36" text

/-- Faint letters. -/
def dim (color : Bool) (text : String) : String := paint color "2" text

/-- So many copies of a character. -/
def copies (count : Nat) (c : Char) : String :=
  String.ofList (List.replicate count c)

/-! ## Parts -/

/-- The code and the message. -/
def headLine (color : Bool) (diagnostic : Diagnostic) : String :=
  let head := match diagnostic.code with
    | some code => severity ++ "[" ++ code ++ "]"
    | none => severity
  boldRed color head ++ ": " ++ bold color diagnostic.message ++ "\n"

/-- The line of the source of a label, with a mark under the place. Columns are shown
    from one on. -/
def snippet (color : Bool) (source : String) (label : Label) : String :=
  let number := toString label.position.line
  let margin := copies number.length ' ' ++ " " ++ cyan color "|"
  let marks := boldRed color (copies (max label.length 1) '^')
  let message := if label.message.isEmpty then "" else " " ++ boldRed color label.message
  "  " ++ cyan color "-->" ++ " " ++ number ++ ":" ++ toString (label.position.offset + 1) ++
    "\n" ++
  margin ++ "\n" ++
  cyan color number ++ " " ++ cyan color "|" ++ " " ++
    Source.lineText source label.position.line ++ "\n" ++
  margin ++ " " ++ copies label.position.offset ' ' ++ marks ++ message ++ "\n" ++
  margin ++ "\n"

/-- A note or a suggestion. -/
def remark (color : Bool) (name text : String) : String :=
  "  " ++ dim color "=" ++ " " ++ name ++ ": " ++ text ++ "\n"

/-! ## The whole -/

/-- The text of a diagnostic. The source is shown at the first place that is that of
    the error itself. -/
def render (color : Bool) (diagnostic : Diagnostic) : String :=
  let shown := match diagnostic.labels.find? Label.isPrimary, diagnostic.source with
    | some label, some source => snippet color source label
    | _, _ => ""
  let notes := diagnostic.notes.map (remark color "note")
  let suggestions := diagnostic.suggestion.toList.map (remark color "suggestion")
  String.join (headLine color diagnostic :: shown :: (notes ++ suggestions))

end ExprMachine.Diagnostic
