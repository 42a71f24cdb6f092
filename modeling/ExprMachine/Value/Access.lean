/-
  ExprMachine.Value.Access

  What a value offers to an expression: its parts, its functions, its members and
  its truth.
-/
import ExprMachine.Value.Equality
import ExprMachine.Value.Host

namespace ExprMachine.Value

/-! ## Parts -/

/-- The position that a name stands for: decimal digits and nothing else. -/
def index? (name : String) : Option Nat :=
  let digits := name.toList
  if digits.isEmpty || !digits.all Char.isDigit then none
  else
    let number := Nat.ofDigitChars 10 digits 0
    if number < 2 ^ 64 then some number else none

/-- The part of a value of some name, which is nil where there is none. -/
def get (host : Host) (value : Value) (name : String) : Value :=
  match value with
  | .list items => ((index? name).bind (items[·]?)).getD .nil
  | .text content =>
    (((index? name).bind (content.toList[·]?)).map fun c => .text c.toString).getD .nil
  | .map entries => (entries.lookup name).getD .nil
  | .host object =>
    match host.shape object with
    | .indexed _ item? => ((index? name).bind item?).getD .nil
    | .keyed value? missing _ => (value? name).getD missing
    | .record field? _ => (field? name).getD .nil
    | .plain => .nil
  | _ => .nil

/-- The method of a value of some name. -/
def method? (host : Host) (value : Value) (name : String) : Option FunctionRef :=
  match value with
  | .host object =>
    match host.shape object with
    | .record _ method? => method? name
    | _ => none
  | _ => none

/-- The function that a value has under a name: a method, else a part that is a
    function. -/
def callable? (host : Host) (value : Value) (name : String) : Option FunctionRef :=
  match value.method? host name with
  | some method => some method
  | none =>
    match value.get host name with
    | .function found => some found
    | _ => none

/-! ## Members -/

/-- Whether a text has another one in it. -/
def hasPart (part : List Char) : List Char → Bool
  | [] => part.isEmpty
  | c :: rest => part.isPrefixOf (c :: rest) || hasPart part rest

/-- Whether a value contains another one, if it is a container for such values: a list,
    a map or an object with keys for texts, a text for texts, or an object with
    positions. -/
def contains? (host : Host) (container needle : Value) : Option Bool :=
  match container with
  | .list items => some (items.any (·.looseEq needle))
  | .map entries =>
    match needle with
    | .text key => some (entries.lookup key).isSome
    | _ => none
  | .text content =>
    match needle with
    | .text part => some (hasPart part.toList content.toList)
    | _ => none
  | .host object =>
    match host.shape object with
    | .keyed _ _ hasKey =>
      match needle with
      | .text key => some (hasKey key)
      | _ => none
    | .indexed length item? =>
      some ((List.range length).any fun i => (item? i).any (·.looseEq needle))
    | _ => none
  | _ => none

/-! ## Truth -/

/-- Whether a value counts as true: zero, empty and nil do not. -/
def isTruthy (host : Host) : Value → Bool
  | .nil => false
  | .bool value => value
  | .int value => value != 0
  | .float value => !Binary64.isZero value
  | .text value => !value.isEmpty
  | .list items => !items.isEmpty
  | .map entries => !entries.isEmpty
  | .function _ => true
  | .host object => host.isTruthy object

end ExprMachine.Value
