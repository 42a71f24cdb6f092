/-
  ExprMachine.Proofs.Expr.Literals

  Integers and indexes read back from the way they are printed.
-/
import ExprMachine.Expr.Literal
import ExprMachine.Proofs.Text.Numerals

namespace ExprMachine.Expr

open Text

theorem isDigit_of_mem_decimal {number : Nat} {c : Char} (h : c ∈ Nat.toDigits 10 number) :
    c.isDigit = true :=
  Nat.isDigit_of_mem_toDigits (by decide) (by decide) h

/-- The digits of a number start with a digit. -/
theorem exists_decimal_cons (number : Nat) :
    ∃ c digits, Nat.toDigits 10 number = c :: digits ∧ c.isDigit = true ∧
      ∀ d ∈ digits, d.isDigit = true := by
  cases h : Nat.toDigits 10 number with
  | nil => simp at h
  | cons c digits =>
    have all : ∀ d ∈ c :: digits, d.isDigit = true := fun d hd =>
      isDigit_of_mem_decimal (h ▸ hd)
    exact ⟨c, digits, rfl, all c (by simp), fun d hd => all d (by simp [hd])⟩

theorem withoutSeparators_of_not_mem {text : List Char} (h : '_' ∉ text) :
    withoutSeparators text = text := by
  refine List.filter_eq_self.2 fun c hc => ?_
  simp only [decide_eq_true_eq]
  rintro rfl
  exact h hc

theorem not_mem_of_isDigit {digits : List Char} {c : Char} (h : ∀ d ∈ digits, d.isDigit = true)
    (hc : c.isDigit = false) : c ∉ digits := fun hmem => by
  rw [h c hmem] at hc
  cases hc

theorem withoutSeparators_of_isDigit {digits : List Char} (h : ∀ d ∈ digits, d.isDigit = true) :
    withoutSeparators digits = digits :=
  withoutSeparators_of_not_mem (not_mem_of_isDigit h (by decide))

/-- A numeral without letters is decimal. -/
theorem splitBase_of_decimal {text : List Char}
    (h : ∀ d ∈ text, d.isDigit = true ∨ d = '.') : splitBase text = (10, text) := by
  unfold splitBase
  split
  · rename_i mark rest
    have hmark := h mark (by simp)
    have ne {c : Char} (hc : c.isDigit = false) (point : c ≠ '.') : mark ≠ c := by
      rintro rfl
      rcases hmark with hmark | hmark
      · rw [hmark] at hc
        cases hc
      · exact point hmark
    simp [ne (c := 'x') (by decide), ne (c := 'X') (by decide), ne (c := 'o') (by decide),
      ne (c := 'O') (by decide), ne (c := 'b') (by decide), ne (c := 'B') (by decide)]
  · rfl

theorem splitBase_of_isDigit {digits : List Char} (h : ∀ d ∈ digits, d.isDigit = true) :
    splitBase digits = (10, digits) :=
  splitBase_of_decimal fun d hd => .inl (h d hd)

/-- A numeral starts with no character but digits. -/
theorem ne_cons_of_readNumeral? {base number : Nat} {digits : List Char}
    (h : readNumeral? base digits = some number) {c : Char} (hc : isDigitOf base c = false)
    (rest : List Char) : digits ≠ c :: rest := by
  rintro rfl
  have digit := isDigitOf_of_readNumeral? h c List.mem_cons_self
  rw [hc] at digit
  cases digit

/-- Digits are read as the same number where a sign may stand before them. -/
theorem readSigned?_of_readNumeral? {base number : Nat} {digits : List Char}
    (h : readNumeral? base digits = some number) :
    readSigned? base digits = some (number : Int) := by
  unfold readSigned?
  split
  · exact absurd rfl (ne_cons_of_readNumeral? h (by simp [isDigitOf, digitValue?]) _)
  · exact absurd rfl (ne_cons_of_readNumeral? h (by simp [isDigitOf, digitValue?]) _)
  · rw [h]
    rfl

theorem readUnsigned?_of_readNumeral? {base number : Nat} {digits : List Char}
    (h : readNumeral? base digits = some number) : readUnsigned? base digits = some number := by
  unfold readUnsigned?
  split
  · exact absurd rfl (ne_cons_of_readNumeral? h (by simp [isDigitOf, digitValue?]) _)
  · exact h

theorem readUnsigned?_decimal {digits : List Char} (nonempty : digits ≠ [])
    (h : ∀ d ∈ digits, d.isDigit = true) :
    readUnsigned? 10 digits = some (Nat.ofDigitChars 10 digits 0) := by
  apply readUnsigned?_of_readNumeral?
  obtain ⟨c, digits, rfl⟩ := List.exists_cons_of_ne_nil nonempty
  rw [readNumeral?, List.isEmpty_cons]
  exact readDigitsFrom?_decimal h 0

-- ============================================================================
-- Integers
-- ============================================================================

/-- A number token without a point denotes the number that its digits make, unless that
    does not fit 64 bits with a sign. -/
theorem ofNumber_of_readNumeral? {lexeme : String} {base number : Nat} {digits : List Char}
    (hsplit : splitBase (withoutSeparators lexeme.toList) = (base, digits))
    (h : readNumeral? base digits = some number) :
    ofNumber lexeme =
      if number < 2 ^ 63 then .ok (.int (.ofInt number))
      else .error (.integerOutOfRange lexeme) := by
  have noPoint : digits.contains '.' = false := by
    rw [Bool.eq_false_iff, ne_eq, List.contains_iff_mem]
    intro mem
    have digit := isDigitOf_of_readNumeral? h '.' mem
    simp [isDigitOf, digitValue?] at digit
  have fits : fitsInt64 (number : Int) = decide (number < 2 ^ 63) := by
    simp only [fitsInt64, Bool.and_eq_decide, decide_eq_true_eq, decide_eq_decide]
    omega
  simp only [ofNumber, hsplit, noPoint, readSigned?_of_readNumeral? h, Option.filter, fits]
  by_cases inRange : number < 2 ^ 63
  · rw [if_pos inRange, decide_eq_true inRange]
    rfl
  · rw [if_neg inRange, decide_eq_false inRange]
    rfl

/-- The numeral of a number denotes it, unless it does not fit 64 bits with a sign. -/
theorem ofNumber_repr (number : Nat) :
    ofNumber number.repr =
      if number < 2 ^ 63 then .ok (.int (.ofInt number))
      else .error (.integerOutOfRange number.repr) := by
  have hdigits : ∀ d ∈ Nat.toDigits 10 number, d.isDigit = true :=
    fun d hd => isDigit_of_mem_decimal hd
  have hsplit : splitBase (withoutSeparators number.repr.toList) =
      (10, Nat.toDigits 10 number) := by
    rw [Nat.toList_repr, withoutSeparators_of_isDigit hdigits, splitBase_of_isDigit hdigits]
  exact ofNumber_of_readNumeral? hsplit (readNumeral?_toDigits (by decide) (by decide) number)

/-- An integer that is not negative is read back from its numeral. -/
theorem ofNumber_toString {value : Int64} (h : 0 ≤ value.toInt) :
    ofNumber (toString value.toInt) = .ok (.int value) := by
  obtain ⟨number, hnumber⟩ := Int.eq_ofNat_of_zero_le h
  have inRange : number < 2 ^ 63 := by
    have := value.toInt_lt
    omega
  have read := ofNumber_repr number
  rw [if_pos inRange, ← hnumber, Int64.ofInt_toInt] at read
  rw [hnumber]
  exact read

-- ============================================================================
-- Indexes
-- ============================================================================

/-- Whether a name is an index: a 64-bit number, written with as few digits as it can. -/
def IsIndex (name : String) : Prop :=
  ∃ number < 2 ^ 64, name = toString number

theorem IsIndex.toList {name : String} (h : IsIndex name) :
    ∃ number < 2 ^ 64, name.toList = Nat.toDigits 10 number := by
  obtain ⟨number, hlt, rfl⟩ := h
  exact ⟨number, hlt, Nat.toList_repr⟩

theorem IsIndex.isDigit {name : String} (h : IsIndex name) :
    ∀ d ∈ name.toList, d.isDigit = true := by
  obtain ⟨number, -, hlist⟩ := h.toList
  rw [hlist]
  exact fun d hd => isDigit_of_mem_decimal hd

theorem IsIndex.toList_ne_nil {name : String} (h : IsIndex name) : name.toList ≠ [] := by
  obtain ⟨number, -, hlist⟩ := h.toList
  simp [hlist]

/-- An index counts by the number that its digits make. -/
theorem ofIndex_decimal {segment : List Char} (nonempty : withoutSeparators segment ≠ [])
    (h : ∀ d ∈ withoutSeparators segment, d.isDigit = true)
    (fits : Nat.ofDigitChars 10 (withoutSeparators segment) 0 < 2 ^ 64) :
    ofIndex segment = some (toString (Nat.ofDigitChars 10 (withoutSeparators segment) 0)) := by
  rw [ofIndex, readUnsigned?_decimal nonempty h, Option.filter, decide_eq_true fits]
  rfl

theorem ofIndex_toList {name : String} (h : IsIndex name) : ofIndex name.toList = some name := by
  have hdigits := h.isDigit
  obtain ⟨number, hlt, rfl⟩ := h
  have hlist : (toString number).toList = Nat.toDigits 10 number := Nat.toList_repr
  rw [hlist] at hdigits ⊢
  rw [ofIndex, withoutSeparators_of_isDigit hdigits, readUnsigned?_decimal (by simp) hdigits,
    Nat.ofDigitChars_toDigits (by decide) (by decide), Option.filter, decide_eq_true hlt]
  rfl

theorem isIndex_of_ofIndex {segment : List Char} {name : String}
    (h : ofIndex segment = some name) : IsIndex name := by
  unfold ofIndex at h
  obtain ⟨number, hnumber, rfl⟩ := Option.map_eq_some_iff.1 h
  obtain ⟨-, hlt⟩ := Option.filter_eq_some_iff.1 hnumber
  exact ⟨number, by simpa using hlt, rfl⟩

/-- No point stands in an index. -/
theorem not_mem_of_ofIndex {segment : List Char} {name : String}
    (h : ofIndex segment = some name) : '.' ∉ segment := by
  unfold ofIndex at h
  obtain ⟨number, hnumber, -⟩ := Option.map_eq_some_iff.1 h
  obtain ⟨hnumber, -⟩ := Option.filter_eq_some_iff.1 hnumber
  have digits {text : List Char} (read : readNumeral? 10 text = some number) : '.' ∉ text := by
    intro mem
    exact absurd (isDigitOf_of_readNumeral? read '.' mem) (by decide)
  intro mem
  have inside : '.' ∈ withoutSeparators segment := List.mem_filter.2 ⟨mem, by decide⟩
  unfold readUnsigned? at hnumber
  split at hnumber
  · rename_i heq
    rw [heq] at inside
    exact digits hnumber ((List.mem_cons.1 inside).resolve_left (by decide))
  · exact digits hnumber inside

theorem indexPath_single {numeral name : String} (h : ofIndex numeral.toList = some name) :
    indexPath ("." ++ numeral) = some [name] := by
  have hpoint := not_mem_of_ofIndex h
  have hsplit : numeral.toList.splitOn '.' = [numeral.toList] := by
    have := @List.splitOn_intercalate _ [numeral.toList] _ _ '.' (by simpa using hpoint) (by simp)
    simpa using this
  simp [indexPath, hsplit, h]

theorem indexPath_pair {first second name other : String}
    (hfirst : ofIndex first.toList = some name) (hsecond : ofIndex second.toList = some other) :
    indexPath ("." ++ first ++ "." ++ second) = some [name, other] := by
  have hpoint := not_mem_of_ofIndex hfirst
  have hpoint' := not_mem_of_ofIndex hsecond
  have hsplit : (first.toList ++ '.' :: second.toList).splitOn '.' =
      [first.toList, second.toList] := by
    have := @List.splitOn_intercalate _ [first.toList, second.toList] _ _ '.'
      (by simp [hpoint, hpoint']) (by simp)
    simpa using this
  simp [indexPath, hsplit, hfirst, hsecond]

end ExprMachine.Expr
