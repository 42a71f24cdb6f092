/-
  ExprMachine.Executable.Number

  Reading JSON numbers. Integers are exact as long as 64 bits hold them. A float is
  built from as many leading digits as fit 64 bits, scaled by a power of ten, so its
  last bit may differ from that of the nearest float.
-/
import ExprMachine.Binary64.Exact
import ExprMachine.Json.Basic
import ExprMachine.Text.Numerals

namespace ExprMachine.Executable

/-! ## Digits -/

/-- Appends digits to a number for as long as it fits 64 bits; gives the number and the
    digits that are left. -/
def appendDigits (number : Nat) : List Char → Nat × List Char
  | [] => (number, [])
  | c :: digits =>
    let longer := number * 10 + (c.toNat - '0'.toNat)
    if longer < 2 ^ 64 then appendDigits longer digits else (number, c :: digits)

/-- A number as it is spelt: the leading digits that fit 64 bits, and the power of ten
    that scales them. -/
structure Spelling where
  significand : Nat
  exponent : Int
  /-- Whether there is neither a point nor an exponent, and no digit is left out. -/
  isInteger : Bool

/-! ## Values -/

/-- A power of ten as a float. -/
def tenTo (exponent : Nat) : Float :=
  Float.ofScientific 1 false exponent

/-- `significand * 10 ^ exponent`, rounded at every step; there is none beyond the
    largest float. -/
def scaled? (significand : Nat) (exponent : Int) : Option Float :=
  let number := Float.ofNat significand
  if 308 < exponent then if significand = 0 then some number else none
  else if 0 ≤ exponent then
    let product := number * tenTo exponent.toNat
    if Binary64.isFinite product then some product else none
  else if -308 ≤ exponent then some (number / tenTo (-exponent).toNat)
  -- The power of ten alone would be beyond the largest float.
  else if -616 ≤ exponent then some (number / tenTo 308 / tenTo (-exponent - 308).toNat)
  else some (Float.ofNat 0)

/-- The number of a spelling and its sign. Negative zero and integers that 64 bits do
    not hold are floats. -/
def Spelling.value? (spelling : Spelling) (negative : Bool) : Option Json :=
  if spelling.isInteger && !negative then some (.integer spelling.significand)
  else if spelling.isInteger && decide (0 < spelling.significand) &&
      decide (spelling.significand ≤ 2 ^ 63) then
    some (.integer (-(spelling.significand : Int)))
  else
    (scaled? spelling.significand spelling.exponent).map fun number =>
      .float (if negative then -number else number)

/-! ## Spellings -/

/-- Splits a minus sign off the front; says whether there was one. -/
def splitMinus : List Char → Bool × List Char
  | '-' :: rest => (true, rest)
  | text => (false, text)

/-- Splits a sign off the front; says whether it was a minus sign. -/
def splitSign : List Char → Bool × List Char
  | '-' :: rest => (true, rest)
  | '+' :: rest => (false, rest)
  | text => (false, text)

/-- Reads the exponent, if there is one. -/
def readExponent (text : List Char) : Option (Option Int × List Char) :=
  match text with
  | mark :: rest =>
    if mark = 'e' ∨ mark = 'E' then
      let (negative, digits) := splitSign rest
      (Text.readNumeral? 10 (digits.takeWhile Char.isDigit)).map fun amount =>
        (some (Binary64.signed negative amount), digits.dropWhile Char.isDigit)
    else some (none, text)
  | [] => some (none, [])

/-- Reads what follows the point of a number whose digits before the point are read;
    so many of them were skipped. -/
def readFraction (leading skipped : Nat) (text : List Char) : Option (Spelling × List Char) :=
  let fraction := text.takeWhile Char.isDigit
  if fraction.isEmpty then none
  else
    let (significand, dropped) := appendDigits leading fraction
    let places : Int := (fraction.length : Int) - dropped.length
    (readExponent (text.dropWhile Char.isDigit)).map fun (exponent?, rest) =>
      (⟨significand, skipped - places + exponent?.getD 0, false⟩, rest)

/-- Reads a number after its sign: no needless zero at the start, and digits on both
    sides of a point. -/
def readSpelling (text : List Char) : Option (Spelling × List Char) :=
  let whole := text.takeWhile Char.isDigit
  if whole.isEmpty || (whole.head? == some '0' && decide (1 < whole.length)) then none
  else
    let (leading, skipped) := appendDigits 0 whole
    match text.dropWhile Char.isDigit with
    | '.' :: afterPoint => readFraction leading skipped.length afterPoint
    | afterWhole =>
      (readExponent afterWhole).map fun (exponent?, rest) =>
        (⟨leading, skipped.length + exponent?.getD 0, exponent?.isNone && skipped.isEmpty⟩, rest)

/-- Reads a number. -/
def readNumber (text : List Char) : Option (Json × List Char) :=
  let (negative, magnitude) := splitMinus text
  match readSpelling magnitude with
  | none => none
  | some (spelling, rest) => (spelling.value? negative).map fun number => (number, rest)

/-! ## Progress -/

theorem length_dropDigits_le (text : List Char) :
    (text.dropWhile Char.isDigit).length ≤ text.length :=
  (List.dropWhile_sublist Char.isDigit).length_le

theorem length_dropDigits_lt {text : List Char}
    (h : (text.takeWhile Char.isDigit).isEmpty = false) :
    (text.dropWhile Char.isDigit).length < text.length := by
  cases text with
  | nil => simp at h
  | cons c rest =>
    by_cases hc : c.isDigit
    · simpa [List.dropWhile_cons, hc] using Nat.lt_succ_of_le (length_dropDigits_le rest)
    · simp [hc] at h

theorem length_splitMinus_le (text : List Char) : (splitMinus text).2.length ≤ text.length := by
  unfold splitMinus
  split
  · exact Nat.le_succ _
  · exact Nat.le_refl _

theorem length_splitSign_le (text : List Char) : (splitSign text).2.length ≤ text.length := by
  unfold splitSign
  split
  · exact Nat.le_succ _
  · exact Nat.le_succ _
  · exact Nat.le_refl _

theorem length_readExponent_le {text rest : List Char} {exponent? : Option Int}
    (h : readExponent text = some (exponent?, rest)) : rest.length ≤ text.length := by
  unfold readExponent at h
  split at h
  · split at h
    · obtain ⟨_, -, he⟩ := Option.map_eq_some_iff.1 h
      cases he
      exact Nat.le_trans (length_dropDigits_le _) (Nat.le_succ_of_le (length_splitSign_le _))
    · cases h; exact Nat.le_refl _
  · cases h; exact Nat.le_refl _

theorem length_readFraction_le {leading skipped : Nat} {text rest : List Char}
    {spelling : Spelling} (h : readFraction leading skipped text = some (spelling, rest)) :
    rest.length ≤ text.length := by
  simp only [readFraction] at h
  split at h
  · cases h
  · obtain ⟨_, hr, he⟩ := Option.map_eq_some_iff.1 h
    cases he
    exact Nat.le_trans (length_readExponent_le hr) (length_dropDigits_le _)

theorem length_readSpelling_lt {text rest : List Char} {spelling : Spelling}
    (h : readSpelling text = some (spelling, rest)) : rest.length < text.length := by
  simp only [readSpelling] at h
  split at h
  · cases h
  · rename_i hw
    have hlt : (text.dropWhile Char.isDigit).length < text.length :=
      length_dropDigits_lt (by simp_all)
    split at h
    · rename_i heq
      rw [heq, List.length_cons] at hlt
      exact Nat.lt_of_le_of_lt (length_readFraction_le h) (by omega)
    · obtain ⟨_, hr, he⟩ := Option.map_eq_some_iff.1 h
      cases he
      exact Nat.lt_of_le_of_lt (length_readExponent_le hr) hlt

theorem length_readNumber_lt {text rest : List Char} {number : Json}
    (h : readNumber text = some (number, rest)) : rest.length < text.length := by
  simp only [readNumber] at h
  split at h
  · cases h
  · rename_i hs
    obtain ⟨_, -, he⟩ := Option.map_eq_some_iff.1 h
    cases he
    exact Nat.lt_of_lt_of_le (length_readSpelling_lt hs) (length_splitMinus_le text)

end ExprMachine.Executable
