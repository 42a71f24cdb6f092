/-
  ExprMachine.Text.Blank

  The Unicode property White_Space: the twenty-five code points that separate
  tokens and never belong to one.
-/
import ExprMachine.Text.Ranges

namespace ExprMachine.Text

/-- All blank code points. -/
def blankRanges : List (Nat × Nat) :=
  [(0x9, 0xD), (0x20, 0x20), (0x85, 0x85), (0xA0, 0xA0), (0x1680, 0x1680), (0x2000, 0x200A),
   (0x2028, 0x2029), (0x202F, 0x202F), (0x205F, 0x205F), (0x3000, 0x3000)]

/-- Whether `c` has the property White_Space. -/
def isBlank (c : Char) : Bool :=
  inRanges blankRanges c

end ExprMachine.Text
