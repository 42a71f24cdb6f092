/-
  ExprMachine.Proofs.Expr.Floats

  Floats read back from the way they are printed, and the floats that are read have no
  minus sign.
-/
import ExprMachine.Expr.Literal
import ExprMachine.Expr.Printer
import ExprMachine.Proofs.Binary64.Bits
import ExprMachine.Proofs.Decimal.Range
import ExprMachine.Proofs.Expr.Literals

namespace ExprMachine.Expr

open Decimal (IsPart)

theorem exists_floatText {value : Float} {significand scale : Nat}
    (finite : Binary64.read value = .finite false significand scale) :
    ∃ whole fraction, (floatLayout.text value).toList = whole ++ '.' :: fraction ∧
      IsPart whole ∧ IsPart fraction ∧
      Decimal.readMagnitude? (whole ++ '.' :: fraction) = some value := by
  obtain ⟨whole, fraction, htext, hwhole, hfraction, hread⟩ :=
    @Decimal.readMagnitude?_magnitude floatLayout _ _ _ (fun _ => rfl) (fun _ => rfl) finite
  refine ⟨whole, fraction, ?_, hwhole, hfraction, hread⟩
  simp only [Decimal.Layout.text, finite, String.toList_ofList]
  exact htext

theorem isDigit_or_point {whole fraction : List Char}
    (digits : ∀ c ∈ whole ++ fraction, c.isDigit = true) :
    ∀ c ∈ whole ++ '.' :: fraction, c.isDigit = true ∨ c = '.' := by
  rw [List.forall_mem_append] at digits ⊢
  refine ⟨fun c hc => .inl (digits.1 c hc), ?_⟩
  exact List.forall_mem_cons.2 ⟨.inr rfl, fun c hc => .inl (digits.2 c hc)⟩

theorem not_mem_of_isDigit_or_point {text : List Char} {c : Char}
    (h : ∀ d ∈ text, d.isDigit = true ∨ d = '.') (digit : c.isDigit = false) (point : c ≠ '.') :
    c ∉ text := by
  intro mem
  rcases h c mem with other | other
  · rw [digit] at other
    cases other
  · exact point other

/-- No sign stands before digits and points. -/
theorem readFloat?_of_decimal {text : List Char} (h : ∀ c ∈ text, c.isDigit = true ∨ c = '.') :
    Decimal.readFloat? text = Decimal.readMagnitude? text := by
  unfold Decimal.readFloat?
  split
  · exact absurd (h '-' List.mem_cons_self) (by decide)
  · exact absurd (h '+' List.mem_cons_self) (by decide)
  · rfl

/-- The bits of a finite float without a sign are read back from its text. -/
theorem ofNumber_floatText {bits : UInt64} {significand scale : Nat}
    (finite : Binary64.read (.ofBits bits) = .finite false significand scale) :
    ofNumber (floatLayout.text (.ofBits bits)) = .ok (.float bits) := by
  obtain ⟨whole, fraction, htext, hwhole, hfraction, hread⟩ := exists_floatText finite
  have decimal := isDigit_or_point (List.forall_mem_append.2 ⟨hwhole.2, hfraction.2⟩)
  have separators : withoutSeparators (whole ++ '.' :: fraction) = whole ++ '.' :: fraction :=
    withoutSeparators_of_not_mem (not_mem_of_isDigit_or_point decimal rfl (by decide))
  have unsigned := (readFloat?_of_decimal decimal).trans hread
  have same : (Float.ofBits bits).toBits = bits :=
    Binary64.toBits_ofBits (by simp only [finite, ne_eq, reduceCtorEq, not_false_eq_true])
  simp [ofNumber, htext, separators, splitBase_of_decimal decimal, unsigned, same]

-- ============================================================================
-- Numbers without a sign
-- ============================================================================

theorem splitBase_cases (text : List Char) :
    splitBase text = (10, text) ∨ ∃ base mark digits, splitBase text = (base, digits) ∧
      text = '0' :: mark :: digits ∧ (base = 16 ∨ base = 8 ∨ base = 2) := by
  unfold splitBase
  split
  · split
    · exact .inr ⟨16, _, _, rfl, rfl, by simp⟩
    split
    · exact .inr ⟨8, _, _, rfl, rfl, by simp⟩
    split
    · exact .inr ⟨2, _, _, rfl, rfl, by simp⟩
    · exact .inl rfl
  · exact .inl rfl

theorem nonnegative_of_readSigned? {base : Nat} {digits : List Char} {number : Int}
    (unsigned : '-' ∉ digits) (h : Text.readSigned? base digits = some number) : 0 ≤ number := by
  unfold Text.readSigned? at h
  split at h
  · obtain ⟨_, -, rfl⟩ := Option.map_eq_some_iff.1 h
    exact Int.natCast_nonneg _
  · exact absurd (List.mem_cons_self ..) unsigned
  · obtain ⟨_, -, rfl⟩ := Option.map_eq_some_iff.1 h
    exact Int.natCast_nonneg _

theorem isPositive_of_readFloat? {digits : List Char} {value : Float} (unsigned : '-' ∉ digits)
    (h : Decimal.readFloat? digits = some value) : Binary64.isPositive value = true := by
  unfold Decimal.readFloat? at h
  split at h
  · exact absurd (List.mem_cons_self ..) unsigned
  · exact Decimal.isPositive_of_readMagnitude? h
  · exact Decimal.isPositive_of_readMagnitude? h

/-- A numeral without a minus sign is read as a number without one. -/
theorem cases_of_ofNumber {lexeme : String} {expr : Expr} (unsigned : '-' ∉ lexeme.toList)
    (h : ofNumber lexeme = .ok expr) :
    (∃ value, expr = .int value ∧ 0 ≤ value.toInt) ∨
      ∃ bits, expr = .float bits ∧ Binary64.isPositive (.ofBits bits) = true := by
  have unsigned : '-' ∉ withoutSeparators lexeme.toList := fun hmem =>
    unsigned (List.mem_filter.1 hmem).1
  obtain ⟨base, digits, hsplit, unsigned, hbase⟩ : ∃ base digits,
      splitBase (withoutSeparators lexeme.toList) = (base, digits) ∧ '-' ∉ digits ∧
        (base = 10 ∨ base = 16 ∨ base = 8 ∨ base = 2) := by
    rcases splitBase_cases (withoutSeparators lexeme.toList) with hsplit |
      ⟨base, mark, digits, hsplit, htext, hbase⟩
    · exact ⟨_, _, hsplit, unsigned, .inl rfl⟩
    · refine ⟨_, _, hsplit, fun hmem => unsigned ?_, .inr hbase⟩
      rw [htext]
      exact List.mem_cons_of_mem _ (List.mem_cons_of_mem _ hmem)
  simp only [ofNumber, hsplit] at h
  split at h
  · split at h
    · rename_i value hvalue
      cases h
      refine .inr ⟨value.toBits, rfl, ?_⟩
      rw [Binary64.ofBits_toBits]
      split at hvalue
      · exact isPositive_of_readFloat? unsigned hvalue
      · rename_i radix
        exact Decimal.isPositive_of_readFraction? (hbase.resolve_left radix) hvalue
    · cases h
  · split at h
    · rename_i number hnumber
      cases h
      obtain ⟨hread, fits⟩ := Option.filter_eq_some_iff.1 hnumber
      have nonnegative := nonnegative_of_readSigned? unsigned hread
      simp only [fitsInt64, Bool.and_eq_true, decide_eq_true_eq] at fits
      refine .inl ⟨_, rfl, ?_⟩
      rw [Int64.toInt_ofInt_of_le fits.1 fits.2]
      exact nonnegative
    · cases h

end ExprMachine.Expr
