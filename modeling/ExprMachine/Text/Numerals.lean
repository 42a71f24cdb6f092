/-
  ExprMachine.Text.Numerals

  Numerals in a base: reading digits, writing numbers, and padding a text to a
  width.
-/

namespace ExprMachine.Text

/-! ## Reading -/

/-- The value of a digit in the given base; after nine the letters count on, in
    either case. -/
def digitValue? (base : Nat) (c : Char) : Option Nat :=
  let value :=
    if '0' ≤ c ∧ c ≤ '9' then c.toNat - '0'.toNat
    else if 'a' ≤ c ∧ c ≤ 'z' then c.toNat - 'a'.toNat + 10
    else if 'A' ≤ c ∧ c ≤ 'Z' then c.toNat - 'A'.toNat + 10
    else base
  if value < base then some value else none

/-- Whether `c` is a digit of the base. -/
def isDigitOf (base : Nat) (c : Char) : Bool :=
  (digitValue? base c).isSome

/-- Reads digits after a number already read, most significant first. -/
def readDigitsFrom? (base : Nat) (start : Nat) (digits : List Char) : Option Nat :=
  digits.foldlM (fun number c => (digitValue? base c).map (number * base + ·)) start

/-- Reads a numeral: at least one digit, and nothing else. -/
def readNumeral? (base : Nat) (digits : List Char) : Option Nat :=
  if digits.isEmpty then none else readDigitsFrom? base 0 digits

/-- Reads a numeral that may follow a plus or minus sign. -/
def readSigned? (base : Nat) : List Char → Option Int
  | '+' :: digits => (readNumeral? base digits).map Int.ofNat
  | '-' :: digits => (readNumeral? base digits).map fun number => -(number : Int)
  | digits => (readNumeral? base digits).map Int.ofNat

/-- Reads a numeral that may follow a plus sign. -/
def readUnsigned? (base : Nat) : List Char → Option Nat
  | '+' :: digits => readNumeral? base digits
  | digits => readNumeral? base digits

/-! ## Writing -/

/-- The shortest numeral in base sixteen, with small letters. -/
def hexadecimal (number : Nat) : String :=
  String.ofList (Nat.toDigits 16 number)

/-- Fills with `fill` on the left up to the width; a longer text is kept. -/
def padLeft (fill : Char) (width : Nat) (text : String) : String :=
  String.ofList (List.replicate (width - text.length) fill) ++ text

/-- Fills with spaces on the right up to the width; a longer text is kept. -/
def padRight (width : Nat) (text : String) : String :=
  text ++ String.ofList (List.replicate (width - text.length) ' ')

end ExprMachine.Text
