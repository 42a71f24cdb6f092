/-
  ExprMachine.Executable.Writer

  JSON documents as text, on one line without spaces or on several lines with two
  spaces for each level.
-/
import ExprMachine.Decimal.Layout
import ExprMachine.Json.Basic
import ExprMachine.Text.Numerals

namespace ExprMachine.Executable

/-! ## Scalars -/

/-- Floats in JSON: always recognisable as floats, with an exponent from 10 ^ 16 on and
    below 10 ^ -5. -/
def floatLayout : Decimal.Layout where
  tie := .even
  isPositional := fun place => decide (-4 ≤ place) && decide (place ≤ 16)
  showsPoint := fun _ => true
  exponentPlus := true

/-- A character inside a JSON string. -/
def stringChar (c : Char) : String :=
  if c = '"' then "\\\""
  else if c = '\\' then "\\\\"
  else if c = '\x08' then "\\b"
  else if c = '\t' then "\\t"
  else if c = '\n' then "\\n"
  else if c = '\x0c' then "\\f"
  else if c = '\r' then "\\r"
  else if c < ' ' then "\\u" ++ Text.padLeft '0' 4 (Text.hexadecimal c.toNat)
  else c.toString

/-- A JSON string. -/
def stringText (text : String) : String :=
  text.foldl (fun written c => written ++ stringChar c) "\"" ++ "\""

/-- A JSON number, or null for the floats that are none. -/
def floatText (x : Float) : String :=
  if Binary64.isFinite x then floatLayout.text x else "null"

/-! ## One line -/

mutual

/-- The text of a document on one line. -/
def compact : Json → String
  | .null => "null"
  | .bool value => if value then "true" else "false"
  | .integer value => toString value
  | .float value => floatText value
  | .string value => stringText value
  | .array items => "[" ++ ",".intercalate (compactAll items) ++ "]"
  | .object members => "\x7b" ++ ",".intercalate (compactMembers members) ++ "\x7d"

/-- The texts of some documents on one line. -/
def compactAll : List Json → List String
  | [] => []
  | item :: items => compact item :: compactAll items

/-- The texts of some members on one line. -/
def compactMembers : List (String × Json) → List String
  | [] => []
  | (key, value) :: members => (stringText key ++ ":" ++ compact value) :: compactMembers members

end

/-! ## Several lines -/

/-- A new line that is indented by so many levels. -/
def newline (level : Nat) : String :=
  "\n" ++ String.ofList (List.replicate (2 * level) ' ')

/-- Puts some texts on lines of their own between brackets. -/
def block (level : Nat) (opening closing : String) (texts : List String) : String :=
  if texts.isEmpty then opening ++ closing
  else
    opening ++ newline (level + 1) ++ ("," ++ newline (level + 1)).intercalate texts ++
      newline level ++ closing

mutual

/-- The text of a document on several lines, whose first one is not indented. -/
def prettyFrom (level : Nat) : Json → String
  | .array items => block level "[" "]" (prettyAll (level + 1) items)
  | .object members => block level "\x7b" "\x7d" (prettyMembers (level + 1) members)
  | .null => "null"
  | .bool value => if value then "true" else "false"
  | .integer value => toString value
  | .float value => floatText value
  | .string value => stringText value

/-- The texts of some documents. -/
def prettyAll (level : Nat) : List Json → List String
  | [] => []
  | item :: items => prettyFrom level item :: prettyAll level items

/-- The texts of some members. -/
def prettyMembers (level : Nat) : List (String × Json) → List String
  | [] => []
  | (key, value) :: members =>
    (stringText key ++ ": " ++ prettyFrom level value) :: prettyMembers level members

end

/-- The text of a document on several lines. -/
def pretty (document : Json) : String :=
  prettyFrom 0 document

end ExprMachine.Executable
