/-
  ExprMachine.Binary64.Exact

  The exact value of a 64-bit float. A finite float is a whole number of units of
  2 ^ -1074, so its value is an integer once the unit is fixed; comparisons and
  remainders of floats are those of these integers.
-/

-- Powers of numbers are those of the numbers themselves, also where monoids have powers.
attribute [instance (20000), default_instance (20000)] instPowNat

namespace ExprMachine.Binary64

/-! ## Reading the bits -/

/-- What the bits of a float stand for. A finite float is
    `significand * 2 ^ scale` units, negated when it is negative. -/
inductive Reading where
  | notANumber
  | infinite (negative : Bool)
  | finite (negative : Bool) (significand scale : Nat)
deriving DecidableEq, Repr

/-- Reads the sign, the exponent field and the fraction field of 64 bits. -/
def readBits (bits : Nat) : Reading :=
  let negative := decide (2 ^ 63 ≤ bits)
  let exponent := bits / 2 ^ 52 % 2 ^ 11
  let fraction := bits % 2 ^ 52
  if exponent = 2047 then
    if fraction = 0 then .infinite negative else .notANumber
  else if exponent = 0 then .finite negative fraction 0
  else .finite negative (2 ^ 52 + fraction) (exponent - 1)

/-- What a float stands for. -/
def read (x : Float) : Reading :=
  readBits x.toBits.toNat

/-- An amount with a sign. -/
def signed (negative : Bool) (amount : Nat) : Int :=
  if negative then -(amount : Int) else amount

/-- How many units make one. -/
def unitsPerOne : Nat := 2 ^ 1074

/-- The size of a finite float in units. -/
def size (significand scale : Nat) : Nat :=
  significand * 2 ^ scale

/-! ## Comparing floats -/

/-- The value of a float in units; infinities lie beyond all finite values, and what
    is not a number has none. -/
def units? (x : Float) : Option Int :=
  match read x with
  | .notANumber => none
  | .infinite negative => some (signed negative (2 ^ 2098))
  | .finite negative significand scale => some (signed negative (size significand scale))

/-- The order of two floats, if both are numbers. The two zeros are equal. -/
def compare? (x y : Float) : Option Ordering := do
  let left ← units? x
  let right ← units? y
  return compare left right

/-- Whether two floats are numbers of the same value. -/
def equal (x y : Float) : Bool :=
  compare? x y == some .eq

/-- Whether a float is zero, of either sign. -/
def isZero (x : Float) : Bool :=
  units? x == some 0

/-- Whether a float is neither infinite nor not a number. -/
def isFinite (x : Float) : Bool :=
  match read x with
  | .finite .. => true
  | _ => false

/-! ## Comparing an integer with a float -/

/-- Where a float stands beside the integers of 64 bits: outside their range, or inside
    with a whole part and the order of that part and the float. -/
inductive Place where
  | below
  | above
  | within (whole : Int) (side : Ordering)
deriving DecidableEq, Repr

/-- The place of a float that is a number. Its whole part is cut off toward zero. -/
def place? (x : Float) : Option Place :=
  match read x with
  | .notANumber => none
  | .infinite negative => some (if negative then .below else .above)
  | .finite negative significand scale =>
    let amount := size significand scale
    if !negative && decide (2 ^ 63 * unitsPerOne ≤ amount) then some .above
    else if negative && decide (2 ^ 63 * unitsPerOne < amount) then some .below
    else
      let whole := signed negative (amount / unitsPerOne)
      let isWhole := amount % unitsPerOne == 0
      some (.within whole (if isWhole then .eq else if negative then .gt else .lt))

/-- The order of an integer and a float at a place. Outside the range the side decides;
    inside, the integer is compared with the whole part, converted with saturation, and a
    tie is broken by the part after the point. -/
def Place.order (a : Int64) : Place → Ordering
  | .below => .gt
  | .above => .lt
  | .within whole side => (compare a.toInt (Int64.ofIntClamp whole).toInt).then side

/-- The order of a 64-bit integer and a float, if the float is a number. -/
def compareInt? (a : Int64) (x : Float) : Option Ordering :=
  (place? x).map (Place.order a)

/-! ## Building floats -/

/-- The bits of a finite float from its sign and its size in units, which has at most
    53 significant bits. -/
def bitsOfUnits (negative : Bool) (amount : Nat) : Nat :=
  let magnitude :=
    if amount < 2 ^ 52 then amount
    else
      let scale := amount.log2 - 52
      (scale + 1) * 2 ^ 52 + (amount / 2 ^ scale - 2 ^ 52)
  if negative then 2 ^ 63 + magnitude else magnitude

/-- The float with the given sign and size in units. -/
def ofUnits (negative : Bool) (amount : Nat) : Float :=
  .ofBits (.ofNat (bitsOfUnits negative amount))

/-- The float that is not a number. -/
def notANumber : Float := .ofBits 0x7ff8000000000000

/-- The infinity of a sign. -/
def infinity (negative : Bool) : Float :=
  .ofBits (if negative then 0xfff0000000000000 else 0x7ff0000000000000)

/-- The float nearest to an integer. -/
def ofInt (a : Int) : Float := .ofInt a

/-! ## Remainder -/

/-- The remainder of the division toward zero, which is always exact: it has the sign
    of the dividend and is smaller than the divisor. -/
def remainder (x y : Float) : Float :=
  match read x, read y with
  | .finite negative m s, .finite _ n t =>
    if n = 0 then notANumber else ofUnits negative (size m s % size n t)
  | .finite .., .infinite _ => x
  | _, _ => notANumber

end ExprMachine.Binary64
