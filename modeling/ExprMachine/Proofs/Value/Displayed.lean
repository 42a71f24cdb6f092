/-
  ExprMachine.Proofs.Value.Displayed

  Which floats are displayed like an integer, alone and within lists and maps.
-/
import ExprMachine.Proofs.Decimal.Whole
import ExprMachine.Value.Text

namespace ExprMachine

open Binary64 (unitsPerOne size)
open Decimal (shortest sixteenPlaces)

/-- Whether a float is a finite number that is smaller than a whole number, without regard
    to the sign. -/
def Binary64.IsBelow (x : Float) (limit : Nat) : Prop :=
  match read x with
  | .finite _ significand scale => size significand scale < limit * unitsPerOne
  | .infinite _ => False
  | .notANumber => False

namespace Value

-- ============================================================================
-- Values in lists and maps
-- ============================================================================

/-- A list or map with a place in it for one more value. -/
inductive Frame where
  | item (before after : List Value)
  | entry (before : List (String × Value)) (key : String) (after : List (String × Value))

def Frame.fill (value : Value) : Frame → Value
  | .item before after => .list (before ++ value :: after)
  | .entry before key after => .map (before ++ (key, value) :: after)

/-- A value in lists and maps, the innermost one first. -/
def surround (frames : List Frame) (value : Value) : Value :=
  frames.foldl Frame.fill value

/-- The text of a value in a list or map. -/
def innerText : Value → String
  | .text value => Text.quoted value
  | value => value.display

theorem displayItems_eq_map (items : List Value) :
    displayItems items = items.map innerText := by
  induction items with
  | nil => rfl
  | cons item items ih => cases item <;> simp [displayItems, innerText, ih]

theorem displayEntries_eq_map (entries : List (String × Value)) :
    displayEntries entries = entries.map fun entry => entry.1 ++ ": " ++ innerText entry.2 := by
  induction entries with
  | nil => rfl
  | cons entry entries ih =>
    obtain ⟨key, value⟩ := entry
    cases value <;> simp [displayEntries, innerText, ih]

theorem exists_intercalate (separator : String) (texts others : List String) :
    ∃ before after, ∀ text,
      separator.intercalate (texts ++ text :: others) = before ++ text ++ after := by
  induction texts with
  | nil =>
    cases others with
    | nil => exact ⟨"", "", fun text => by simp⟩
    | cons other others =>
      exact ⟨"", separator ++ separator.intercalate (other :: others), fun text => by
        simp [String.intercalate_cons_cons, String.append_assoc]⟩
  | cons first texts ih =>
    obtain ⟨before, after, h⟩ := ih
    refine ⟨first ++ separator ++ before, after, fun text => ?_⟩
    have nonempty : texts ++ text :: others ≠ [] := by simp
    rw [List.cons_append, String.intercalate_cons_of_ne_nil nonempty, h]
    simp [String.append_assoc]

/-- Whether a value is displayed the same alone and in lists and maps. -/
def IsPlain (value : Value) : Prop :=
  innerText value = value.display

theorem Frame.isPlain_fill (frame : Frame) (value : Value) : IsPlain (frame.fill value) := by
  cases frame <;> rfl

theorem Frame.exists_display (frame : Frame) :
    ∃ before after, ∀ value, IsPlain value →
      (frame.fill value).display = before ++ value.display ++ after := by
  cases frame with
  | item items others =>
    obtain ⟨before, after, h⟩ :=
      exists_intercalate ", " (displayItems items) (displayItems others)
    refine ⟨"[" ++ before, after ++ "]", fun value plain => ?_⟩
    have shown : displayItems (items ++ value :: others) =
        displayItems items ++ value.display :: displayItems others := by
      simp only [displayItems_eq_map, List.map_append, List.map_cons, plain.symm]
    rw [Frame.fill, display, shown, h]
    simp only [String.append_assoc]
  | entry entries key others =>
    obtain ⟨before, after, h⟩ :=
      exists_intercalate ", " (displayEntries entries) (displayEntries others)
    refine ⟨"\x7b" ++ before ++ key ++ ": ", after ++ "\x7d", fun value plain => ?_⟩
    have shown : displayEntries (entries ++ (key, value) :: others) =
        displayEntries entries ++ (key ++ ": " ++ value.display) :: displayEntries others := by
      simp only [displayEntries_eq_map, List.map_append, List.map_cons, plain.symm]
    rw [Frame.fill, display, shown, h]
    simp only [String.append_assoc]

/-- Lists and maps add the same texts around every value that is not a text. -/
theorem exists_display_surround (frames : List Frame) :
    ∃ before after, ∀ value, IsPlain value →
      (surround frames value).display = before ++ value.display ++ after := by
  induction frames with
  | nil => exact ⟨"", "", fun value _ => by simp [surround]⟩
  | cons frame frames ih =>
    obtain ⟨before, after, outer⟩ := ih
    obtain ⟨start, stop, inner⟩ := frame.exists_display
    refine ⟨before ++ start, stop ++ after, fun value plain => ?_⟩
    have filled := outer (frame.fill value) (frame.isPlain_fill value)
    rw [inner value plain] at filled
    rw [surround, List.foldl_cons, ← surround, filled]
    simp only [String.append_assoc]

theorem display_surround_inj {first second : Value} (hfirst : IsPlain first)
    (hsecond : IsPlain second) (frames : List Frame) :
    (surround frames first).display = (surround frames second).display ↔
      first.display = second.display := by
  obtain ⟨before, after, h⟩ := exists_display_surround frames
  rw [h first hfirst, h second hsecond, ← String.toList_inj, ← String.toList_inj]
  simp only [String.toList_append, List.append_cancel_right_eq, List.append_cancel_left_eq]

-- ============================================================================
-- Texts of numbers
-- ============================================================================

theorem display_of_nonneg {value : Int64} (h : 0 ≤ value.toInt) :
    (Value.int value).display = value.toInt.natAbs.repr := by
  obtain ⟨number, hnumber⟩ := Int.eq_ofNat_of_zero_le h
  rw [display, hnumber]
  rfl

theorem display_of_neg {value : Int64} (h : value.toInt < 0) :
    (Value.int value).display = "-" ++ value.toInt.natAbs.repr := by
  rw [display]
  cases hvalue : value.toInt with
  | ofNat number =>
    rw [hvalue] at h
    exact absurd h (Int.not_lt.2 (Int.natCast_nonneg number))
  | negSucc number => rfl

theorem toList_display_int (number : Int64) :
    (Value.int number).display.toList =
      (if number.toInt < 0 then ['-'] else []) ++ Nat.toDigits 10 number.toInt.natAbs := by
  by_cases negative : number.toInt < 0
  · rw [display_of_neg negative, String.toList_append, if_pos negative, Nat.toList_repr]
    rfl
  · rw [display_of_nonneg (Int.not_lt.1 negative), if_neg negative, Nat.toList_repr]
    rfl

theorem toList_display_finite {x : Float} {negative : Bool} {significand scale : Nat}
    (h : Binary64.read x = .finite negative significand scale) :
    (Value.float x).display.toList =
      (if negative then ['-'] else []) ++ sixteenPlaces (shortest .up significand scale) := by
  rw [display, Decimal.Layout.text, h]
  exact String.toList_ofList

/-- Digits after an optional sign say whether the sign is there and which number it is. -/
theorem sign_append_toDigits_inj {negative negative' : Prop} [Decidable negative]
    [Decidable negative'] {number number' : Nat}
    (h : (if negative then ['-'] else []) ++ Nat.toDigits 10 number =
      (if negative' then ['-'] else []) ++ Nat.toDigits 10 number') :
    (negative ↔ negative') ∧ number = number' := by
  have noSign (number : Nat) (rest : List Char) : Nat.toDigits 10 number ≠ '-' :: rest := by
    intro digits
    have digit := @Nat.isDigit_of_mem_toDigits 10 number '-' (by decide) (by decide)
      (digits ▸ List.mem_cons_self)
    exact absurd digit (by decide)
  have value (same : Nat.toDigits 10 number = Nat.toDigits 10 number') : number = number' := by
    rw [← @Nat.ofDigitChars_ten_toDigits number, same, Nat.ofDigitChars_ten_toDigits]
  by_cases first : negative <;> by_cases second : negative' <;>
    simp only [first, second, if_true, if_false, List.nil_append, List.cons_append] at h
  · exact ⟨iff_of_true first second, value (List.cons.inj h).2⟩
  · exact absurd h.symm (noSign _ _)
  · exact absurd h (noSign _ _)
  · exact ⟨iff_of_false first second, value h⟩

theorem mem_display_int {number : Int64} {c : Char} (h : c ∈ (Value.int number).display.toList) :
    c = '-' ∨ c.isDigit = true := by
  rw [toList_display_int, List.mem_append] at h
  rcases h with sign | digit
  · split at sign
    · exact .inl (List.mem_singleton.1 sign)
    · cases sign
  · exact .inr (Nat.isDigit_of_mem_toDigits (by decide) (by decide) digit)

theorem display_notANumber {x : Float} (h : Binary64.read x = .notANumber) :
    (Value.float x).display = "NaN" := by
  rw [display, Decimal.Layout.text, h]

theorem display_infinite {x : Float} {negative : Bool}
    (h : Binary64.read x = .infinite negative) :
    (Value.float x).display = if negative then "-inf" else "inf" := by
  rw [display, Decimal.Layout.text, h]

/-- A float has a point in its text just when it is finite and smaller than 10 ^ 16. -/
theorem point_mem_display {x : Float} :
    '.' ∈ (Value.float x).display.toList ↔ Binary64.IsBelow x (10 ^ 16) := by
  rw [Binary64.IsBelow]
  cases h : Binary64.read x with
  | notANumber =>
    rw [display_notANumber h]
    exact iff_of_false (by decide) id
  | infinite negative =>
    rw [display_infinite h]
    exact iff_of_false (by cases negative <;> decide) id
  | finite negative significand scale =>
    obtain ⟨bound, normal, inRange⟩ := Binary64.bounds_of_read h
    have sign : '.' ∉ if negative then ['-'] else [] := by cases negative <;> decide
    rw [toList_display_finite h, List.mem_append, or_iff_right sign]
    exact Decimal.point_mem_sixteenPlaces bound normal inRange

/-- A sign and a size below 2 ^ 63 make an integer that 64 bits hold. -/
theorem exists_int64 {negative : Bool} {size : Nat} (positive : 0 < size) (fits : size < 2 ^ 63) :
    ∃ number : Int64, (number.toInt < 0 ↔ negative = true) ∧ number.toInt.natAbs = size := by
  cases negative with
  | false =>
    refine ⟨.ofInt size, ?_⟩
    rw [Int64.toInt_ofInt_of_le (by omega) (by omega)]
    exact ⟨by simp, Int.natAbs_natCast size⟩
  | true =>
    refine ⟨.ofInt (-size), ?_⟩
    rw [Int64.toInt_ofInt_of_le (by omega) (by omega)]
    exact ⟨by simpa using positive, by omega⟩

section Large

variable {x : Float} {negative : Bool} {significand scale : Nat}
  (h : Binary64.read x = .finite negative significand scale)
  (large : ¬size significand scale < 10 ^ 16 * unitsPerOne)

include h large in
theorem toList_display_large :
    (Value.float x).display.toList = (if negative then ['-'] else []) ++
      Nat.toDigits 10 (shortest .up significand scale).wholeNumber := by
  obtain ⟨bound, normal, inRange⟩ := Binary64.bounds_of_read h
  rw [toList_display_finite h, Decimal.sixteenPlaces_of_large bound normal inRange large]

include h large in
theorem size_lt_of_display_eq {number : Int64}
    (same : (Value.int number).display = (Value.float x).display) :
    size significand scale < 2 ^ 63 * unitsPerOne := by
  obtain ⟨bound, normal, inRange⟩ := Binary64.bounds_of_read h
  obtain ⟨positive, whole⟩ := @Decimal.whole_of_large .up _ _ bound normal inRange large
  have texts := congrArg String.toList same
  rw [toList_display_int, toList_display_large h large] at texts
  obtain ⟨-, number_eq⟩ := sign_append_toDigits_inj texts
  have fits : number.toInt.natAbs ≤ 2 ^ 63 := by
    have below := number.toInt_lt
    have above := number.le_toInt
    omega
  rw [number_eq] at fits
  exact (Decimal.wholeNumber_le_two_pow_63 positive bound normal inRange whole).1 fits

include h large in
theorem exists_display_eq (fits : size significand scale < 2 ^ 63 * unitsPerOne) :
    ∃ number : Int64, (Value.int number).display = (Value.float x).display := by
  obtain ⟨bound, normal, inRange⟩ := Binary64.bounds_of_read h
  obtain ⟨positive, whole⟩ := @Decimal.whole_of_large .up _ _ bound normal inRange large
  have least := mt (Decimal.wholeNumber_lt_ten_pow_16 positive bound normal inRange whole).1 large
  have most := (Decimal.wholeNumber_le_two_pow_63 positive bound normal inRange whole).2 fits
  have other := Decimal.wholeNumber_ne_two_pow_63 positive bound normal inRange whole
  obtain ⟨number, sign, number_eq⟩ := @exists_int64 negative
    (shortest .up significand scale).wholeNumber (by omega) (by omega)
  refine ⟨number, String.toList_inj.1 ?_⟩
  rw [toList_display_int, toList_display_large h large, number_eq]
  simp only [sign]

end Large

/-- The floats from 10 ^ 16 on that are smaller than 2 ^ 63 are displayed like integers. -/
theorem exists_display_int {x : Float} :
    (∃ number : Int64, (Value.int number).display = (Value.float x).display) ↔
      ¬Binary64.IsBelow x (10 ^ 16) ∧ Binary64.IsBelow x (2 ^ 63) := by
  constructor
  · rintro ⟨number, same⟩
    have characters (c : Char) (h : c ∈ (Value.float x).display.toList) :
        c = '-' ∨ c.isDigit = true := mem_display_int (same ▸ h)
    have large : ¬Binary64.IsBelow x (10 ^ 16) := fun below =>
      absurd (characters '.' (point_mem_display.2 below)) (by decide)
    refine ⟨large, ?_⟩
    rw [Binary64.IsBelow] at large ⊢
    cases h : Binary64.read x with
    | notANumber =>
      rw [display_notANumber h] at characters
      exact absurd (characters 'N' (by decide)) (by decide)
    | infinite negative =>
      rw [display_infinite h] at characters
      exact absurd (characters 'i' (by cases negative <;> decide)) (by decide)
    | finite negative significand scale =>
      rw [h] at large
      exact size_lt_of_display_eq h large same
  · rintro ⟨large, fits⟩
    rw [Binary64.IsBelow] at large fits
    cases h : Binary64.read x <;> rw [h] at large fits
    case notANumber => exact fits.elim
    case infinite => exact fits.elim
    case finite => exact exists_display_eq h large fits

/-- A float is recognisable by a point in its text just when it is finite and smaller than
    10 ^ 16. Of the others, those that are smaller than 2 ^ 63 have the text of an integer,
    in all lists and maps as well as alone; the larger ones, the infinities and what is not
    a number have a text that no integer has. -/
theorem display_float_recognisable (x : Float) (frames : List Frame) :
    ('.' ∈ (Value.float x).display.toList ↔ Binary64.IsBelow x (10 ^ 16)) ∧
      ((∃ number : Int64, (surround frames (.int number)).display =
          (surround frames (.float x)).display) ↔
        ¬Binary64.IsBelow x (10 ^ 16) ∧ Binary64.IsBelow x (2 ^ 63)) := by
  refine ⟨point_mem_display, ?_⟩
  rw [← exists_display_int]
  exact exists_congr fun number =>
    @display_surround_inj (.int number) (.float x) rfl rfl frames

/-- The float 10 ^ 16 is displayed like the integer, without a point. -/
theorem display_ten_pow_16 :
    (Value.int 10000000000000000).display =
        (Value.float (.ofBits 0x4341c37937e08000)).display ∧
      '.' ∉ (Value.float (.ofBits 0x4341c37937e08000)).display.toList := by
  decide +kernel

end Value

end ExprMachine
