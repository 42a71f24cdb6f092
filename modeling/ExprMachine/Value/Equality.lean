/-
  ExprMachine.Value.Equality

  Two equalities of values. Strict equality compares values of one kind; the looser
  one of the language also compares integers with floats, by their exact values.
  Maps are equal when they have the same keys with equal values, in any order.
  Functions and objects are equal to themselves only.
-/
import ExprMachine.Binary64.Exact
import ExprMachine.Value.Basic

namespace ExprMachine.Value

/-! ## Strict equality -/

mutual

/-- Whether two values are of one kind and equal. -/
def strictEq : Value → Value → Bool
  | .nil, .nil => true
  | .bool a, .bool b => a == b
  | .int a, .int b => a == b
  | .float a, .float b => Binary64.equal a b
  | .text a, .text b => a == b
  | .list a, .list b => strictEqItems a b
  | .map a, .map b => a.length == b.length && strictEqEntries a b
  | .function a, .function b => a == b
  | .host a, .host b => a == b
  | _, _ => false

/-- Whether two lists are equal, item by item. -/
def strictEqItems : List Value → List Value → Bool
  | [], [] => true
  | a :: as, b :: bs => strictEq a b && strictEqItems as bs
  | _, _ => false

/-- Whether all these entries are in a map. -/
def strictEqEntries : List (String × Value) → List (String × Value) → Bool
  | [], _ => true
  | (key, a) :: entries, others =>
    (match others.lookup key with
      | some b => strictEq a b
      | none => false) && strictEqEntries entries others

end

/-! ## The equality of the language -/

mutual

/-- Whether two values are equal in the language. -/
def looseEq : Value → Value → Bool
  | .int a, .float b => Binary64.compareInt? a b == some .eq
  | .float a, .int b => Binary64.compareInt? b a == some .eq
  | .list a, .list b => looseEqItems a b
  | .map a, .map b => a.length == b.length && looseEqEntries a b
  | a, b => strictEq a b

/-- Whether two lists are equal in the language, item by item. -/
def looseEqItems : List Value → List Value → Bool
  | [], [] => true
  | a :: as, b :: bs => looseEq a b && looseEqItems as bs
  | _, _ => false

/-- Whether all these entries are in a map, up to the equality of the language. -/
def looseEqEntries : List (String × Value) → List (String × Value) → Bool
  | [], _ => true
  | (key, a) :: entries, others =>
    (match others.lookup key with
      | some b => looseEq a b
      | none => false) && looseEqEntries entries others

end

end ExprMachine.Value
