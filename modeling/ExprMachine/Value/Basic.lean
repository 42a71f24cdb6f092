/-
  ExprMachine.Value.Basic

  The values that expressions are evaluated to, and their kinds. Functions and
  objects belong to the program around the machine; a value only refers to them.
-/

namespace ExprMachine

/-! ## Kinds -/

/-- The kind of a value, by which operators are chosen. Every type of objects of the
    surrounding program is a kind of its own. -/
inductive Kind where
  | nil
  | bool
  | int
  | float
  | text
  | list
  | map
  | function
  | host (typeName : String)
deriving DecidableEq, Repr

/-- The name of a kind. -/
def Kind.name : Kind → String
  | .nil => "nil"
  | .bool => "bool"
  | .int => "int"
  | .float => "float"
  | .text => "text"
  | .list => "list"
  | .map => "map"
  | .function => "function"
  | .host typeName => typeName

/-! ## Values -/

/-- A function of the surrounding program. -/
structure FunctionRef where
  id : Nat
deriving DecidableEq, Repr

/-- An object of the surrounding program, and the name of its type. -/
structure ObjectRef where
  id : Nat
  typeName : String
deriving DecidableEq, Repr

/-- A value. Maps keep their entries in the order in which the keys came first. -/
inductive Value where
  | nil
  | bool (value : Bool)
  | int (value : Int64)
  | float (value : Float)
  | text (value : String)
  | list (items : List Value)
  | map (entries : List (String × Value))
  | function (function : FunctionRef)
  | host (object : ObjectRef)

namespace Value

instance : Inhabited Value := ⟨.nil⟩

/-- The kind of a value. -/
def kind : Value → Kind
  | .nil => .nil
  | .bool _ => .bool
  | .int _ => .int
  | .float _ => .float
  | .text _ => .text
  | .list _ => .list
  | .map _ => .map
  | .function _ => .function
  | .host object => .host object.typeName

end Value

end ExprMachine
