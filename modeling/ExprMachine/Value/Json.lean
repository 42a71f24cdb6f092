/-
  ExprMachine.Value.Json

  Values and JSON documents. Functions, objects and the floats that JSON does not
  have become null; integers that 64 bits with a sign do not hold become floats.
-/
import ExprMachine.Binary64.Exact
import ExprMachine.Json.Basic
import ExprMachine.Value.Basic

namespace ExprMachine.Value

/-! ## From values to documents -/

mutual

/-- The document of a value. -/
def toJson : Value → Json
  | .nil | .function _ | .host _ => .null
  | .bool value => .bool value
  | .int value => .integer value.toInt
  | .float value => if Binary64.isFinite value then .float value else .null
  | .text value => .string value
  | .list items => .array (toJsonItems items)
  | .map entries => .object (toJsonEntries entries)

/-- The documents of the items of a list. -/
def toJsonItems : List Value → List Json
  | [] => []
  | item :: items => toJson item :: toJsonItems items

/-- The members for the entries of a map. -/
def toJsonEntries : List (String × Value) → List (String × Json)
  | [] => []
  | (key, value) :: entries => (key, toJson value) :: toJsonEntries entries

end

/-! ## From documents to values -/

/-- The value of an integer of a document. -/
def ofInteger (value : Int) : Value :=
  if -(2 ^ 63) ≤ value ∧ value < 2 ^ 63 then .int (.ofInt value) else .float (Binary64.ofInt value)

mutual

/-- The value of a document. -/
def ofJson : Json → Value
  | .null => .nil
  | .bool value => .bool value
  | .integer value => ofInteger value
  | .float value => .float value
  | .string value => .text value
  | .array items => .list (ofJsonItems items)
  | .object members => .map (ofJsonMembers members)

/-- The values of the items of an array. -/
def ofJsonItems : List Json → List Value
  | [] => []
  | item :: items => ofJson item :: ofJsonItems items

/-- The entries for the members of an object. -/
def ofJsonMembers : List (String × Json) → List (String × Value)
  | [] => []
  | (key, value) :: members => (key, ofJson value) :: ofJsonMembers members

end

end ExprMachine.Value
