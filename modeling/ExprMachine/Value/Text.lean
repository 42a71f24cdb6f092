/-
  ExprMachine.Value.Text

  Values as text, for display and for debugging.
-/
import ExprMachine.Decimal.Layout
import ExprMachine.Text.Quoted
import ExprMachine.Value.Host

namespace ExprMachine.Value

/-! ## Display -/

/-- Floats in displayed values: no exponents, and whole numbers below 10 ^ 16 end in a
    point and a zero. -/
def displayLayout : Decimal.Layout where
  tie := .up
  isPositional := fun _ => true
  showsPoint := fun place => decide (place ≤ 16)
  exponentPlus := false

mutual

/-- The text of a value. -/
def display : Value → String
  | .nil => "nil"
  | .bool value => if value then "true" else "false"
  | .int value => toString value.toInt
  | .float value => displayLayout.text value
  | .text value => value
  | .list items => "[" ++ ", ".intercalate (displayItems items) ++ "]"
  | .map entries => "\x7b" ++ ", ".intercalate (displayEntries entries) ++ "\x7d"
  | .function _ => "<function>"
  | .host object => "<" ++ object.typeName ++ ">"

/-- The texts of the items of a list; texts among them are quoted. -/
def displayItems : List Value → List String
  | [] => []
  | .text value :: items => Text.quoted value :: displayItems items
  | item :: items => display item :: displayItems items

/-- The texts of the entries of a map; texts among the values are quoted. -/
def displayEntries : List (String × Value) → List String
  | [] => []
  | (key, .text value) :: entries => (key ++ ": " ++ Text.quoted value) :: displayEntries entries
  | (key, value) :: entries => (key ++ ": " ++ display value) :: displayEntries entries

end

/-! ## Debugging -/

mutual

/-- The text of a value with the names of all kinds. -/
def debugText (host : Host) : Value → String
  | .nil => "Nil"
  | .bool value => if value then "Bool(true)" else "Bool(false)"
  | .int value => "Int(" ++ toString value.toInt ++ ")"
  | .float value => "Float(" ++ Decimal.Layout.debug.text value ++ ")"
  | .text value => "Text(" ++ Text.quoted value ++ ")"
  | .list items => "List([" ++ ", ".intercalate (debugItems host items) ++ "])"
  | .map entries =>
    "Map(\x7b" ++ ", ".intercalate (debugEntries host entries) ++ "\x7d)"
  | .function _ => "Function(..)"
  | .host object => "Host(" ++ host.describe object ++ ")"

/-- The texts of the items of a list. -/
def debugItems (host : Host) : List Value → List String
  | [] => []
  | item :: items => debugText host item :: debugItems host items

/-- The texts of the entries of a map. -/
def debugEntries (host : Host) : List (String × Value) → List String
  | [] => []
  | (key, value) :: entries =>
    (Text.quoted key ++ ": " ++ debugText host value) :: debugEntries host entries

end

end ExprMachine.Value
