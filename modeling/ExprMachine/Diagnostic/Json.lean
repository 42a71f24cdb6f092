/-
  ExprMachine.Diagnostic.Json

  Diagnostics for other programs, as JSON on one line. The source is left out.
-/
import ExprMachine.Diagnostic.Basic
import ExprMachine.Json.Basic

namespace ExprMachine.Diagnostic

/-- The document of a label. -/
def labelJson (label : Label) : Json :=
  .object
    [("line", .integer label.position.line),
     ("offset", .integer label.position.offset),
     ("length", .integer label.length),
     ("message", .string label.message),
     ("primary", .bool label.isPrimary)]

/-- The document of a diagnostic. Code and suggestion are members only if there are
    any. -/
def toJson (diagnostic : Diagnostic) : Json :=
  .object
    ([("severity", .string severity),
      ("message", .string diagnostic.message),
      ("labels", .array (diagnostic.labels.map labelJson)),
      ("notes", .array (diagnostic.notes.map .string))] ++
     diagnostic.code.toList.map (fun code => ("code", .string code)) ++
     diagnostic.suggestion.toList.map (fun text => ("suggestion", .string text)))

/-- What stands for a diagnostic that cannot be written. -/
def unwritten : String :=
  "\x7b\"severity\":\"error\",\"message\":\"internal error serializing diagnostic\"\x7d"

/-- The text of the document of a diagnostic. -/
def renderJson (codec : Json.Codec) (diagnostic : Diagnostic) : String :=
  match codec.write (toJson diagnostic) with
  | .ok text => text
  | .error _ => unwritten

end ExprMachine.Diagnostic
