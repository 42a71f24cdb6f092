/-
  ExprMachine.Proofs.Expr.Integers

  Integers as a source text writes them: digits of a base with separators among them, after
  a letter that announces any base but ten. The scanner takes an integer as one token, and
  the token denotes the number that its digits make by position.
-/
import Mathlib.Data.Nat.Digits.Defs
import ExprMachine.Proofs.Expr.Literals
import ExprMachine.Proofs.Token.Shapes

namespace ExprMachine

-- ============================================================================
-- Digits with values
-- ============================================================================

namespace Text

variable {base : Nat}

/-- Whether `c` is the digit with this value in the base; a letter is one in either case. -/
def IsDigit (base : Nat) (c : Char) (value : Nat) : Prop :=
  value < base ∧ (c = value.digitChar ∨ c = value.digitChar.toUpper)

theorem IsDigit.digitValue?_eq {c : Char} {value : Nat} (small : base ≤ 16)
    (h : IsDigit base c value) : digitValue? base c = some value := by
  obtain ⟨below, rfl | rfl⟩ := h
  · exact digitValue?_digitChar small below
  · have table : ∀ value < 16, ∀ base ≤ 16, value < base →
        digitValue? base value.digitChar.toUpper = some value := by decide
    exact table value (by omega) base small below

theorem IsDigit.isDigitOf {c : Char} {value : Nat} (small : base ≤ 16)
    (h : IsDigit base c value) : isDigitOf base c = true := by
  rw [Text.isDigitOf, h.digitValue?_eq small, Option.isSome_some]

theorem isDigit_zeros (positive : 0 < base) (count : Nat) :
    List.Forall₂ (IsDigit base) (List.replicate count '0') (List.replicate count 0) := by
  induction count with
  | zero => exact .nil
  | succ count ih => exact .cons ⟨positive, .inl rfl⟩ ih

/-- Digits are read as the number that their values make by position, after the number
    that is read before them. -/
theorem readDigitsFrom?_of_forall₂ {digits : List Char} {values : List Nat} (small : base ≤ 16)
    (h : List.Forall₂ (IsDigit base) digits values) (start : Nat) :
    readDigitsFrom? base start digits = some (Nat.ofDigits base (values.reverse ++ [start])) := by
  induction h generalizing start with
  | nil => simp [readDigitsFrom?]
  | @cons c value digits values hc _ ih =>
    rw [readDigitsFrom?, List.foldlM_cons, hc.digitValue?_eq small]
    refine (ih (start * base + value)).trans (congrArg some ?_)
    rw [List.reverse_cons, List.append_assoc, Nat.ofDigits_append, Nat.ofDigits_append,
      List.singleton_append, Nat.ofDigits_singleton, Nat.ofDigits_cons, Nat.ofDigits_singleton,
      Nat.mul_comm start, Nat.add_comm (base * start)]

end Text

-- ============================================================================
-- Integers as a source text writes them
-- ============================================================================

namespace Expr

/-- The letters that announce a base after a zero. -/
inductive Announces : Char → Nat → Prop where
  | binary {mark} (h : mark = 'b' ∨ mark = 'B') : Announces mark 2
  | octal {mark} (h : mark = 'o' ∨ mark = 'O') : Announces mark 8
  | hexadecimal {mark} (h : mark = 'x' ∨ mark = 'X') : Announces mark 16

/-- Whether characters are the digits with these values, with any number of separators. -/
def HasDigits (base : Nat) (values : List Nat) (body : List Char) : Prop :=
  List.Forall₂ (Text.IsDigit base) (body.filter (· ≠ '_')) values

/-- `IsInteger base values literal`: the literal writes an integer in the base by the digits
    with these values, the most significant one first. Separators stand anywhere after the
    letter that announces the base, or after the first digit where none is announced. -/
inductive IsInteger : Nat → List Nat → List Char → Prop where
  | decimal {values body} (written : HasDigits 10 values body) (nonempty : values ≠ [])
      (opens : body.head? ≠ some '_') : IsInteger 10 values body
  | announced {base values mark body} (announces : Announces mark base)
      (written : HasDigits base values body) (nonempty : values ≠ []) :
      IsInteger base values ('0' :: mark :: body)

/-- The number that the digits make by position. -/
def positional (base : Nat) (values : List Nat) : Nat :=
  Nat.ofDigits base values.reverse

variable {base : Nat} {values : List Nat} {body literal : List Char}

theorem Announces.announcedBase? {mark : Char} (h : Announces mark base) :
    Lexeme.announcedBase? mark = some base := by
  rcases h with (rfl | rfl) | (rfl | rfl) | (rfl | rfl) <;> rfl

theorem Announces.base_le {mark : Char} (h : Announces mark base) : base ≤ 16 := by
  cases h <;> decide

namespace HasDigits

/-- The digits without the separators are read as their number. -/
theorem readNumeral?_eq (small : base ≤ 16) (h : HasDigits base values body)
    (nonempty : values ≠ []) :
    Text.readNumeral? base (withoutSeparators body) = some (positional base values) := by
  have some : (withoutSeparators body).isEmpty = false := by
    rw [Bool.eq_false_iff, ne_eq, List.isEmpty_iff]
    intro empty
    rw [HasDigits, ← withoutSeparators, empty] at h
    cases h
    exact nonempty rfl
  have read := Text.readDigitsFrom?_of_forall₂ small h 0
  rw [Nat.ofDigits_append, Nat.ofDigits_singleton, Nat.mul_zero, Nat.add_zero] at read
  rw [Text.readNumeral?, some]
  exact read

/-- The first of the digits is one. -/
theorem exists_digit (small : base ≤ 16) (h : HasDigits base values body) (nonempty : values ≠ []) :
    ∃ c ∈ body, Text.isDigitOf base c = true := by
  cases hfilter : body.filter (· ≠ '_') with
  | nil =>
    rw [HasDigits, hfilter] at h
    cases h
    exact absurd rfl nonempty
  | cons c rest =>
    rw [HasDigits, hfilter] at h
    cases h with
    | cons hc _ =>
      have mem : c ∈ body.filter (· ≠ '_') := by rw [hfilter]; exact List.mem_cons_self
      exact ⟨c, (List.mem_filter.1 mem).1, hc.isDigitOf small⟩

theorem isDigitOf (small : base ≤ 16) (h : HasDigits base values body) :
    ∀ c ∈ withoutSeparators body, Text.isDigitOf base c = true :=
  Text.isDigitOf_of_readDigitsFrom? (Text.readDigitsFrom?_of_forall₂ small h 0)

/-- Every character is a digit or a separator. -/
theorem isDigitOf_or (small : base ≤ 16) (h : HasDigits base values body) :
    ∀ c ∈ body, Text.isDigitOf base c = true ∨ c = '_' := by
  intro c mem
  by_cases separator : c = '_'
  · exact .inr separator
  · exact .inl (h.isDigitOf small c (List.mem_filter.2 ⟨mem, by simpa using separator⟩))

theorem isDigitPart (small : base ≤ 16) (h : HasDigits base values body) :
    ∀ c ∈ body, Lexeme.isDigitPart base c = true := by
  intro c mem
  rw [Lexeme.isDigitPart, Bool.or_eq_true, beq_iff_eq]
  exact (h.isDigitOf_or small c mem).symm

end HasDigits

-- ============================================================================
-- What the token denotes
-- ============================================================================

/-- Without the separators an integer splits into its base and its digits. -/
theorem IsInteger.splitBase_eq (h : IsInteger base values literal) :
    ∃ digits, splitBase (withoutSeparators literal) = (base, digits) ∧
      Text.readNumeral? base digits = some (positional base values) := by
  cases h with
  | decimal written nonempty _ =>
    have digits : ∀ d ∈ withoutSeparators literal, d.isDigit = true := by
      intro d mem
      rw [← Text.isDigitOf_ten]
      exact written.isDigitOf (by decide) d mem
    exact ⟨_, splitBase_of_isDigit digits, written.readNumeral?_eq (by decide) nonempty⟩
  | @announced _ _ mark body announces written nonempty =>
    refine ⟨withoutSeparators body, ?_, written.readNumeral?_eq announces.base_le nonempty⟩
    rcases announces with (rfl | rfl) | (rfl | rfl) | (rfl | rfl) <;> rfl

/-- An integer denotes the number that its digits make, unless it does not fit 64 bits with
    a sign. -/
theorem ofNumber_of_isInteger (h : IsInteger base values literal) :
    ofNumber (String.ofList literal) =
      if positional base values < 2 ^ 63 then .ok (.int (.ofInt (positional base values)))
      else .error (.integerOutOfRange (String.ofList literal)) := by
  obtain ⟨digits, hsplit, read⟩ := h.splitBase_eq
  exact ofNumber_of_readNumeral? (by rw [String.toList_ofList, hsplit]) read

-- ============================================================================
-- What the scanner takes
-- ============================================================================

/-- Where no part of a number stands no word and no fraction goes on. -/
theorem endsWord_of_plain {rest : List Char} (h : rest.head?.any Lexeme.isNumberPart = false) :
    rest.head?.any Lexeme.isWordPart = false ∧ ∀ base, Lexeme.fraction base rest = ([], rest) := by
  cases rest with
  | nil => exact ⟨rfl, fun _ => rfl⟩
  | cons c rest =>
    have part : Lexeme.isNumberPart c = false := by simpa using h
    simp only [Lexeme.isNumberPart, Bool.or_eq_false_iff, beq_eq_false_iff_ne] at part
    exact ⟨by simpa using part.1, fun _ => Lexeme.fraction_of_ne_point part.2⟩

/-- An announced base with a digit of its own is gone on from like any other number. -/
theorem number_announced {mark : Char} {rest : List Char}
    (announced : Lexeme.announcedBase? mark = some base)
    (parts : ∀ c ∈ body, Lexeme.isDigitPart base c = true)
    (some : ∃ c ∈ body, Text.isDigitOf base c = true)
    (ends : rest.head?.any (Lexeme.isDigitPart base) = false) :
    Lexeme.number ('0' :: mark :: (body ++ rest)) =
      Lexeme.numberFrom base ['0', mark] (body ++ rest) := by
  obtain ⟨htake, -⟩ := Lexeme.span_append parts ends
  have digits : body.any (Text.isDigitOf base) = true := List.any_eq_true.2 some
  simp only [Lexeme.number, announced, htake, digits, if_true]

/-- An integer is one token wherever no part of a number follows it. -/
theorem lexes_of_isInteger {keywords : List String} {rest : List Char}
    (h : IsInteger base values literal) (ends : rest.head?.any Lexeme.isNumberPart = false) :
    Lexes keywords (literal ++ rest) (.number (String.ofList literal)) rest := by
  cases h with
  | decimal written nonempty opens =>
    obtain ⟨word, plain⟩ := endsWord_of_plain ends
    refine lexes_numeral ⟨?_, ?_⟩ (Lexeme.endsWord_iff.2 ⟨word, plain 10⟩)
    · obtain ⟨c, mem, -⟩ := written.exists_digit (by decide) nonempty
      cases literal with
      | nil => cases mem
      | cons d literal =>
        rcases written.isDigitOf_or (by decide) d List.mem_cons_self with digit | rfl
        · rw [List.head?_cons, Option.any_some, ← Text.isDigitOf_ten, digit]
        · exact absurd rfl opens
    · intro c mem
      rw [← Text.isDigitOf_ten]
      exact written.isDigitOf_or (by decide) c mem
  | announced announces written nonempty =>
    obtain ⟨word, plain⟩ := endsWord_of_plain ends
    have parts := written.isDigitPart announces.base_le
    have digit := written.exists_digit announces.base_le nonempty
    refine .number (.inl rfl) ?_
    exact (number_announced announces.announcedBase? parts digit
      (Lexeme.head_not_isDigitPart word)).trans (Lexeme.numberFrom_run parts word (plain _))

end Expr

end ExprMachine
