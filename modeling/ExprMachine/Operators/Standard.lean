/-
  ExprMachine.Operators.Standard

  The standard overloads: arithmetic on integers and floats, where mixed operands
  become floats; joining texts; and the order of numbers and of texts.
-/
import ExprMachine.Operators.Arithmetic
import ExprMachine.Operators.Registry

namespace ExprMachine.Registry

/-! ## Arithmetic -/

/-- A float operation on typed operands. -/
def floatResult {α β : Type} (left : α → Float) (right : β → Float)
    (operation : Float → Float → Float) (a : α) (b : β) : Except CallError Value :=
  .ok (.float (operation (left a) (right b)))

/-- An integer as the float nearest to it. -/
def promote (a : Int64) : Float :=
  Binary64.ofInt a.toInt

/-- The four overloads of an arithmetic operator. -/
def arithmetic (symbol : String) (onInts : Int64 → Int64 → Except CallError Value)
    (onFloats : Float → Float → Float) : List (String × Overload) :=
  [(symbol, .ofTyped .int .int onInts),
   (symbol, .ofTyped .float .float (floatResult id id onFloats)),
   (symbol, .ofTyped .int .float (floatResult promote id onFloats)),
   (symbol, .ofTyped .float .int (floatResult id promote onFloats))]

/-- The overload that joins two texts. -/
def joining : String × Overload :=
  ("+", .ofTyped .text .text fun a b => .ok (.text (a ++ b)))

/-! ## Order -/

/-- The order of two texts, by their code points. -/
def compareTexts (a b : String) : Ordering :=
  if a < b then .lt else if b < a then .gt else .eq

/-- Whether an order passes a test; operands without an order do not. -/
def passes (test : Ordering → Bool) (order : Option Ordering) : Except CallError Value :=
  .ok (.bool (order.any test))

/-- The five overloads of an ordering operator. -/
def ordering (symbol : String) (test : Ordering → Bool) : List (String × Overload) :=
  [(symbol, .ofTyped .int .int fun a b => passes test (some (compare a.toInt b.toInt))),
   (symbol, .ofTyped .float .float fun a b => passes test (Binary64.compare? a b)),
   (symbol, .ofTyped .int .float fun a b => passes test (Binary64.compareInt? a b)),
   (symbol, .ofTyped .float .int fun a b =>
     passes test ((Binary64.compareInt? b a).map Ordering.swap)),
   (symbol, .ofTyped .text .text fun a b => passes test (some (compareTexts a b)))]

/-! ## All of them -/

/-- The standard overloads. -/
def standard : Registry where
  entries :=
    arithmetic "+" Arithmetic.add (· + ·) ++ arithmetic "-" Arithmetic.sub (· - ·) ++
      arithmetic "*" Arithmetic.mul (· * ·) ++ arithmetic "/" Arithmetic.div (· / ·) ++
      arithmetic "%" Arithmetic.mod Binary64.remainder ++
      arithmetic "^" Arithmetic.pow Float.pow ++ [joining] ++
      ordering "<" Ordering.isLT ++ ordering ">" Ordering.isGT ++
      ordering "<=" Ordering.isLE ++ ordering ">=" Ordering.isGE

end ExprMachine.Registry
