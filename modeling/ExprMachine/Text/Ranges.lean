/-
  ExprMachine.Text.Ranges

  Classes of characters as tables of code-point ranges, ascending and apart. The
  tables of the classes hold the data of version 17 of the Unicode standard.
-/

namespace ExprMachine.Text

/-- Whether the code point of `c` lies in one of the inclusive ranges. -/
def inRanges (ranges : List (Nat × Nat)) (c : Char) : Bool :=
  ranges.any fun range => decide (range.1 ≤ c.toNat) && decide (c.toNat ≤ range.2)

end ExprMachine.Text
