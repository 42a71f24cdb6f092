/-
  ExprMachine.Proofs.Token.Shapes

  Texts that are scanned as one token wherever nothing that would belong to the token
  follows: words, operators, numbers and text literals.
-/
import ExprMachine.Expr.Printer
import ExprMachine.Proofs.Token.Scanning

namespace ExprMachine

-- ============================================================================
-- What follows a token
-- ============================================================================

/-- Whether the characters neither go on with a word or a number before them nor start
    a path of indexes. -/
def Lexeme.endsWord : List Char → Bool
  | [] => true
  | c :: rest => !isWordPart c && !(c == '.' && rest.head?.any Char.isDigit)

/-- Whether the characters do not go on with an operator before them. -/
def Lexeme.endsOperator (rest : List Char) : Bool :=
  !rest.head?.any Token.isPairEnd

/-- A run of characters ends where something else follows it. -/
theorem Lexeme.span_append {p : Char → Bool} {run rest : List Char}
    (h : ∀ c ∈ run, p c = true) (ends : rest.head?.any p = false) :
    (run ++ rest).takeWhile p = run ∧ (run ++ rest).dropWhile p = rest := by
  have hrest : rest.takeWhile p = [] ∧ rest.dropWhile p = rest := by
    cases rest with
    | nil => simp
    | cons c rest =>
      have hc : p c = false := by simpa using ends
      simp [hc]
  rw [List.takeWhile_append_of_pos h, List.dropWhile_append_of_pos h, hrest.1, hrest.2]
  simp

-- ============================================================================
-- Words and operators
-- ============================================================================

/-- Whether a name is a word and no keyword. -/
def IsWord (keywords : List String) (name : String) : Prop :=
  ∃ c rest, name.toList = c :: rest ∧ Lexeme.isWordStart c = true ∧
    (∀ d ∈ rest, Lexeme.isWordPart d = true) ∧ keywords.contains name = false

/-- Whether a text is an operator: a character that is one by itself, one or two
    characters of those that come in pairs, or a keyword. -/
inductive IsOperator (keywords : List String) : String → Prop where
  | lone {c} (opens : Token.isLoneOperator c = true) : IsOperator keywords (String.ofList [c])
  | pair {c d} (opens : Token.isPairStart c = true) (ends : Token.isPairEnd d = true) :
      IsOperator keywords (String.ofList [c, d])
  | half {c} (opens : Token.isPairStart c = true) : IsOperator keywords (String.ofList [c])
  | keyword {c rest} (opens : Text.isAlphabetic c = true)
      (parts : ∀ d ∈ rest, Lexeme.isWordPart d = true)
      (known : keywords.contains (String.ofList (c :: rest)) = true) :
      IsOperator keywords (String.ofList (c :: rest))

variable {keywords : List String}

theorem lexes_word {name : String} (h : IsWord keywords name) {rest : List Char}
    (ends : rest.head?.any Lexeme.isWordPart = false) :
    Lexes keywords (name.toList ++ rest) (.word name) rest := by
  obtain ⟨c, tail, hname, opens, parts, unknown⟩ := h
  have hparts : ∀ d ∈ c :: tail, Lexeme.isWordPart d = true := by
    intro d hd
    rcases List.mem_cons.1 hd with rfl | hd
    · exact Token.isWordPart_of_isWordStart opens
    · exact parts d hd
  obtain ⟨htake, hdrop⟩ := Lexeme.span_append hparts ends
  have hword : String.ofList (c :: tail) = name := by rw [← hname, String.ofList_toList]
  have lexes : Lexes keywords (c :: tail ++ rest) (.word (String.ofList (c :: tail))) rest :=
    .word opens htake hdrop (by rw [hword]; exact unknown)
  rw [hword] at lexes
  rw [hname]
  exact lexes

theorem lexes_keyword {c : Char} {tail rest : List Char} (opens : Lexeme.isWordStart c = true)
    (parts : ∀ d ∈ tail, Lexeme.isWordPart d = true)
    (known : keywords.contains (String.ofList (c :: tail)) = true)
    (ends : rest.head?.any Lexeme.isWordPart = false) :
    Lexes keywords (c :: tail ++ rest) (.operator (String.ofList (c :: tail))) rest := by
  have hparts : ∀ d ∈ c :: tail, Lexeme.isWordPart d = true := by
    intro d hd
    rcases List.mem_cons.1 hd with rfl | hd
    · exact Token.isWordPart_of_isWordStart opens
    · exact parts d hd
  obtain ⟨htake, hdrop⟩ := Lexeme.span_append hparts ends
  exact .keyword opens htake hdrop known

/-- A word operator needs an end of the word after it, any other operator nothing that
    would make it a pair. -/
theorem lexes_operator {symbol : String} (h : IsOperator keywords symbol) {rest : List Char}
    (word : Expr.isWordOperator symbol = true → rest.head?.any Lexeme.isWordPart = false)
    (other : Expr.isWordOperator symbol = false → Lexeme.endsOperator rest = true) :
    Lexes keywords (symbol.toList ++ rest) (.operator symbol) rest := by
  cases h with
  | lone opens => rw [String.toList_ofList]; exact .lone opens
  | pair opens ends => rw [String.toList_ofList]; exact .pair opens ends
  | @half c opens =>
    rw [String.toList_ofList]
    refine .half opens ?_
    have notWord : Expr.isWordOperator (String.ofList [c]) = false := by
      simp only [Token.isPairStart, List.contains_iff_mem, List.mem_cons, List.not_mem_nil,
        or_false] at opens
      rcases opens with rfl | rfl | rfl | rfl | rfl | rfl <;> decide
    simpa [Lexeme.endsOperator] using other notWord
  | @keyword c tail opens parts known =>
    rw [String.toList_ofList]
    have hword : Expr.isWordOperator (String.ofList (c :: tail)) = true := by
      simp [Expr.isWordOperator, opens]
    have hopens : Lexeme.isWordStart c = true := by simp [Lexeme.isWordStart, opens]
    exact lexes_keyword hopens parts known (word hword)

theorem IsOperator.toList_ne_nil {symbol : String} (h : IsOperator keywords symbol) :
    symbol.toList ≠ [] := by
  cases h <;> simp

/-- No operator starts with a character that completes a pair, unless it is one of the
    operators that may start a pair. -/
theorem IsOperator.head {symbol : String} (h : IsOperator keywords symbol) :
    ∃ c rest, symbol.toList = c :: rest ∧
      (Token.isLoneOperator c = true ∨ Token.isPairStart c = true ∨
        Text.isAlphabetic c = true) := by
  cases h with
  | lone opens => exact ⟨_, _, String.toList_ofList, .inl opens⟩
  | pair opens _ => exact ⟨_, _, String.toList_ofList, .inr (.inl opens)⟩
  | half opens => exact ⟨_, _, String.toList_ofList, .inr (.inl opens)⟩
  | keyword opens _ _ => exact ⟨_, _, String.toList_ofList, .inr (.inr opens)⟩

-- ============================================================================
-- Numbers
-- ============================================================================

/-- The digits of the decimal base are the digits. -/
theorem Text.isDigitOf_ten (c : Char) : isDigitOf 10 c = c.isDigit := by
  have hrange : ('0' ≤ c ∧ c ≤ '9') ↔ c.isDigit = true := isDigit_iff.symm
  unfold isDigitOf digitValue?
  by_cases h : c.isDigit = true
  · have hvalue : c.toNat - '0'.toNat < 10 := by
      have := isDigit_iff.1 h
      have : '0'.toNat = 48 := rfl
      omega
    simp only [if_pos (hrange.2 h), if_pos hvalue, h, Option.isSome_some]
  · simp only [if_neg (mt hrange.1 h)]
    have hvalue : ¬ (if 'a' ≤ c ∧ c ≤ 'z' then c.toNat - 'a'.toNat + 10
        else if 'A' ≤ c ∧ c ≤ 'Z' then c.toNat - 'A'.toNat + 10 else 10) < 10 := by
      split
      · omega
      · split <;> omega
    rw [if_neg hvalue]
    simpa using h

namespace Lexeme

theorem isDigitPart_ten {c : Char} : isDigitPart 10 c = true ↔ c.isDigit = true ∨ c = '_' := by
  simp [isDigitPart, Text.isDigitOf_ten, or_comm]

theorem isDigitPart_of_isDigit {c : Char} (h : c.isDigit = true) : isDigitPart 10 c = true :=
  isDigitPart_ten.2 (.inl h)

theorem isNumeric_of_isDigit {c : Char} (h : c.isDigit = true) : Text.isNumeric c = true := by
  have := Text.isDigit_iff.1 h
  rw [Text.isNumeric, if_pos (by omega), h]

/-- What stands in a run of digits of any base may stand in a word. -/
theorem isWordPart_of_isDigitPart {base : Nat} {c : Char} (h : isDigitPart base c = true) :
    isWordPart c = true := by
  simp only [isDigitPart, Bool.or_eq_true, beq_iff_eq] at h
  rcases h with rfl | h
  · decide
  unfold Text.isDigitOf Text.digitValue? at h
  by_cases digit : '0' ≤ c ∧ c ≤ '9'
  · have numeric := isNumeric_of_isDigit (Text.isDigit_iff.2 digit)
    simp [isWordPart, numeric]
  rw [if_neg digit] at h
  have letter (hc : c.isAlpha = true) : isWordPart c = true := by
    have range := Text.isAlpha_iff.1 hc
    have alphabetic : Text.isAlphabetic c = true := by
      rw [Text.isAlphabetic, if_pos (by omega), hc]
    simp [isWordPart, alphabetic]
  by_cases small : 'a' ≤ c ∧ c ≤ 'z'
  · exact letter (Text.isAlpha_iff.2 (.inr small))
  rw [if_neg small] at h
  by_cases large : 'A' ≤ c ∧ c ≤ 'Z'
  · exact letter (Text.isAlpha_iff.2 (.inl large))
  rw [if_neg large] at h
  simp at h

theorem not_isDigitPart_of_not_isWordPart {base : Nat} {c : Char} (h : isWordPart c = false) :
    isDigitPart base c = false := by
  cases hdigit : isDigitPart base c with
  | false => rfl
  | true =>
    rw [isWordPart_of_isDigitPart hdigit] at h
    cases h

theorem head_not_isDigitPart {base : Nat} {rest : List Char}
    (h : rest.head?.any isWordPart = false) : rest.head?.any (isDigitPart base) = false := by
  cases rest with
  | nil => rfl
  | cons c rest => simpa using not_isDigitPart_of_not_isWordPart (by simpa using h)

/-- Nothing of a word is left over where no character of a word stands. -/
theorem no_stray_iff {rest : List Char} :
    (rest.takeWhile isWordPart).isEmpty = true ↔ rest.head?.any isWordPart = false := by
  cases rest with
  | nil => simp
  | cons c rest => cases hc : isWordPart c <;> simp [hc]

theorem fraction_of_ne_point {base : Nat} {c : Char} {rest : List Char} (h : c ≠ '.') :
    fraction base (c :: rest) = ([], c :: rest) := by
  unfold fraction
  split
  · rename_i heq
    exact absurd (List.cons.inj heq).1 h
  · rfl

theorem fraction_of_digit {base : Nat} {c : Char} {rest : List Char}
    (h : Text.isDigitOf base c = true) :
    fraction base ('.' :: c :: rest) =
      ('.' :: (c :: rest).takeWhile (isDigitPart base),
        (c :: rest).dropWhile (isDigitPart base)) := by
  rw [fraction, if_pos h]

theorem endsWord_iff {rest : List Char} : endsWord rest = true ↔
    rest.head?.any isWordPart = false ∧ fraction 10 rest = ([], rest) := by
  cases rest with
  | nil => simp [endsWord, fraction]
  | cons c rest =>
    by_cases hpoint : c = '.'
    · subst hpoint
      cases rest with
      | nil => simp [endsWord, fraction]
      | cons d rest => cases h : d.isDigit <;> simp [endsWord, fraction, Text.isDigitOf_ten, h]
    · simp [endsWord, fraction_of_ne_point hpoint, hpoint]

/-- A run of digits is a number if neither a word nor a fraction goes on after it. -/
theorem numberFrom_run {base : Nat} {taken digits rest : List Char}
    (h : ∀ d ∈ digits, isDigitPart base d = true) (ends : rest.head?.any isWordPart = false)
    (plain : fraction base rest = ([], rest)) :
    numberFrom base taken (digits ++ rest) = .ok (taken ++ digits, rest) := by
  obtain ⟨htake, hdrop⟩ := span_append h (head_not_isDigitPart ends)
  simp only [numberFrom, htake, hdrop, plain, no_stray_iff.2 ends, if_true, List.append_nil]

theorem numberFrom_digits {taken digits rest : List Char}
    (h : ∀ d ∈ digits, isDigitPart 10 d = true) (ends : endsWord rest = true) :
    numberFrom 10 taken (digits ++ rest) = .ok (taken ++ digits, rest) := by
  obtain ⟨hword, hfraction⟩ := endsWord_iff.1 ends
  exact numberFrom_run h hword hfraction

/-- Two runs of digits with a point between them are a number if the second one starts with
    a digit and ends. -/
theorem numberFrom_fraction {base : Nat} {taken digits more rest : List Char}
    (h : ∀ d ∈ digits, isDigitPart base d = true)
    (opens : more.head?.any (Text.isDigitOf base) = true)
    (hmore : ∀ d ∈ more, isDigitPart base d = true) (ends : rest.head?.any isWordPart = false) :
    numberFrom base taken (digits ++ '.' :: (more ++ rest)) =
      .ok (taken ++ digits ++ '.' :: more, rest) := by
  have point : ('.' :: (more ++ rest)).head?.any (isDigitPart base) = false :=
    head_not_isDigitPart (by rw [List.head?_cons, Option.any_some]; decide)
  obtain ⟨htake, hdrop⟩ := span_append h point
  obtain ⟨htake', hdrop'⟩ := span_append hmore (head_not_isDigitPart ends)
  have hfraction : fraction base ('.' :: (more ++ rest)) = ('.' :: more, rest) := by
    cases more with
    | nil => cases opens
    | cons d tail =>
      have hd : Text.isDigitOf base d = true := by simpa using opens
      rw [List.cons_append] at htake' hdrop' ⊢
      rw [fraction_of_digit hd, htake', hdrop']
  simp only [numberFrom, htake, hdrop, hfraction, no_stray_iff.2 ends, if_true]

/-- No base is announced where digits go on or end. -/
theorem number_decimal {c : Char} {tail : List Char} (hc : c.isDigit = true)
    (plain : tail.head?.any (fun mark => (announcedBase? mark).isSome) = false) :
    number (c :: tail) = numberFrom 10 [c] tail := by
  unfold number
  split
  · rename_i heq
    obtain ⟨rfl, -⟩ := List.cons.inj heq
    cases hc
  · rename_i mark rest heq
    obtain ⟨rfl, rfl⟩ := List.cons.inj heq
    have : announcedBase? mark = none := by simpa using plain
    rw [this]
  · rename_i heq
    obtain ⟨rfl, rfl⟩ := List.cons.inj heq
    rfl
  · rename_i heq
    cases heq

theorem announcedBase?_eq_none {c : Char} (h : c.isDigit = true ∨ c = '.' ∨ isWordPart c = false) :
    announcedBase? c = none := by
  have ne {d : Char} (digit : d.isDigit = false) (point : d ≠ '.') (part : isWordPart d = true) :
      c ≠ d := by
    rintro rfl
    rcases h with h | h | h
    · rw [digit] at h
      cases h
    · exact point h
    · rw [part] at h
      cases h
  simp [announcedBase?, ne (d := 'x') (by decide) (by decide) (by decide),
    ne (d := 'X') (by decide) (by decide) (by decide),
    ne (d := 'o') (by decide) (by decide) (by decide),
    ne (d := 'O') (by decide) (by decide) (by decide),
    ne (d := 'b') (by decide) (by decide) (by decide),
    ne (d := 'B') (by decide) (by decide) (by decide)]

end Lexeme

/-- Whether characters are decimal digits, maybe with separators after the first of them. -/
structure IsNumeral (numeral : List Char) : Prop where
  opens : numeral.head?.any Char.isDigit = true
  parts : ∀ c ∈ numeral, c.isDigit = true ∨ c = '_'

namespace IsNumeral

theorem of_isDigit {digits : List Char} (nonempty : digits ≠ [])
    (h : ∀ d ∈ digits, d.isDigit = true) : IsNumeral digits where
  opens := by
    obtain ⟨c, tail, rfl⟩ := List.exists_cons_of_ne_nil nonempty
    simpa using h c List.mem_cons_self
  parts c mem := .inl (h c mem)

theorem isDigitPart {numeral : List Char} (h : IsNumeral numeral) :
    ∀ c ∈ numeral, Lexeme.isDigitPart 10 c = true :=
  fun c mem => Lexeme.isDigitPart_ten.2 (h.parts c mem)

theorem head_isDigitOf {numeral : List Char} (h : IsNumeral numeral) :
    numeral.head?.any (Text.isDigitOf 10) = true := by
  rw [funext Text.isDigitOf_ten]
  exact h.opens

/-- Whatever follows, a numeral starts with a digit. -/
theorem head_append {numeral : List Char} (h : IsNumeral numeral) (rest : List Char) :
    (numeral ++ rest).head?.any Char.isDigit = true := by
  have opens := h.opens
  cases numeral with
  | nil => cases opens
  | cons c numeral => exact opens

end IsNumeral

/-- A decimal integer, maybe with separators. -/
theorem lexes_numeral {numeral rest : List Char} (h : IsNumeral numeral)
    (ends : Lexeme.endsWord rest = true) :
    Lexes keywords (numeral ++ rest) (.number (String.ofList numeral)) rest := by
  cases numeral with
  | nil => cases h.opens
  | cons c tail =>
    have hc : c.isDigit = true := by simpa using h.opens
    refine .number (.inl hc) ?_
    have plain : (tail ++ rest).head?.any (fun mark => (Lexeme.announcedBase? mark).isSome) =
        false := by
      cases tail with
      | nil =>
        cases rest with
        | nil => rfl
        | cons d rest =>
          have := (Lexeme.endsWord_iff.1 ends).1
          simp [Lexeme.announcedBase?_eq_none (.inr (.inr (by simpa using this)))]
      | cons d tail =>
        rcases h.parts d (by simp) with digit | rfl
        · simp [Lexeme.announcedBase?_eq_none (.inl digit)]
        · simp [Lexeme.announcedBase?]
    exact (Lexeme.number_decimal hc plain).trans
      (Lexeme.numberFrom_digits (fun d hd => h.isDigitPart d (List.mem_cons_of_mem _ hd)) ends)

theorem lexes_integer {digits rest : List Char} (nonempty : digits ≠ [])
    (h : ∀ d ∈ digits, d.isDigit = true) (ends : Lexeme.endsWord rest = true) :
    Lexes keywords (digits ++ rest) (.number (String.ofList digits)) rest :=
  lexes_numeral (.of_isDigit nonempty h) ends

/-- A decimal number with a point. -/
theorem lexes_decimal {whole fraction rest : List Char} (nonempty : whole ≠ [])
    (hwhole : ∀ d ∈ whole, d.isDigit = true) (nonempty' : fraction ≠ [])
    (hfraction : ∀ d ∈ fraction, d.isDigit = true)
    (ends : rest.head?.any Lexeme.isWordPart = false) :
    Lexes keywords (whole ++ '.' :: (fraction ++ rest))
      (.number (String.ofList (whole ++ '.' :: fraction))) rest := by
  obtain ⟨c, tail, rfl⟩ := List.exists_cons_of_ne_nil nonempty
  have hc := hwhole c (by simp)
  have htail : ∀ d ∈ tail, d.isDigit = true := fun d hd => hwhole d (by simp [hd])
  refine .number (.inl hc) ?_
  have plain : (tail ++ '.' :: (fraction ++ rest)).head?.any
      (fun mark => (Lexeme.announcedBase? mark).isSome) = false := by
    cases tail with
    | nil => simp [Lexeme.announcedBase?_eq_none (c := '.') (.inr (.inl rfl))]
    | cons d tail => simp [Lexeme.announcedBase?_eq_none (.inl (htail d (by simp)))]
  have after := IsNumeral.of_isDigit nonempty' hfraction
  exact (Lexeme.number_decimal hc plain).trans
    (Lexeme.numberFrom_fraction (fun d hd => Lexeme.isDigitPart_of_isDigit (htail d hd))
      after.head_isDigitOf after.isDigitPart ends)

/-- One index after a point. -/
theorem lexes_index {numeral rest : List Char} (h : IsNumeral numeral)
    (ends : Lexeme.endsWord rest = true) :
    Lexes keywords ('.' :: (numeral ++ rest)) (.number (String.ofList ('.' :: numeral))) rest :=
  .number (.inr ⟨rfl, h.head_append rest⟩) (Lexeme.numberFrom_digits h.isDigitPart ends)

/-- Two indexes, each after a point. -/
theorem lexes_indexes {numeral more rest : List Char} (h : IsNumeral numeral)
    (hmore : IsNumeral more) (ends : rest.head?.any Lexeme.isWordPart = false) :
    Lexes keywords ('.' :: (numeral ++ '.' :: (more ++ rest)))
      (.number (String.ofList ('.' :: (numeral ++ '.' :: more)))) rest :=
  .number (.inr ⟨rfl, h.head_append _⟩)
    (Lexeme.numberFrom_fraction h.isDigitPart hmore.head_isDigitOf hmore.isDigitPart ends)

-- ============================================================================
-- Characters of numbers
-- ============================================================================

namespace Lexeme

/-- Whether `c` can stand in a number, or in what starts as one. -/
def isNumberPart (c : Char) : Bool :=
  isWordPart c || c == '.'

theorem isNumberPart_of_isWordPart {c : Char} (h : isWordPart c = true) :
    isNumberPart c = true := by
  rw [isNumberPart, h, Bool.true_or]

theorem isDigitPart_takeWhile {base : Nat} {text : List Char} :
    ∀ c ∈ text.takeWhile (isDigitPart base), isDigitPart base c = true :=
  List.all_eq_true.1 List.all_takeWhile

theorem isNumberPart_takeWhile {base : Nat} {text : List Char} :
    ∀ c ∈ text.takeWhile (isDigitPart base), isNumberPart c = true :=
  fun c hc => isNumberPart_of_isWordPart (isWordPart_of_isDigitPart (isDigitPart_takeWhile c hc))

/-- A fraction consists of its point, digits and separators. -/
theorem isDigitPart_or_fraction (base : Nat) (text : List Char) :
    ∀ c ∈ (fraction base text).1, isDigitPart base c = true ∨ c = '.' := by
  intro c hc
  unfold fraction at hc
  split at hc
  · split at hc
    · exact (List.mem_cons.1 hc).symm.imp_left (isDigitPart_takeWhile c)
    · cases hc
  · cases hc

theorem isNumberPart_fraction (base : Nat) (text : List Char) :
    ∀ c ∈ (fraction base text).1, isNumberPart c = true := by
  intro c hc
  rcases isDigitPart_or_fraction base text c hc with digit | rfl
  · exact isNumberPart_of_isWordPart (isWordPart_of_isDigitPart digit)
  · rfl

/-- Whether the characters that a number takes, or names as no number, are parts of
    numbers. -/
def OfNumberParts : Except LexCause (List Char × List Char) → Prop
  | .ok (lexeme, _) => ∀ c ∈ lexeme, isNumberPart c = true
  | .error cause => ∃ lexeme, cause = .malformedNumber (String.ofList lexeme) ∧
      ∀ c ∈ lexeme, isNumberPart c = true

theorem numberFrom_parts {base : Nat} {taken rest : List Char}
    (start : ∀ c ∈ taken, isNumberPart c = true) : OfNumberParts (numberFrom base taken rest) := by
  have number : ∀ c ∈ taken ++ rest.takeWhile (isDigitPart base) ++
      (fraction base (rest.dropWhile (isDigitPart base))).1, isNumberPart c = true := by
    rw [List.forall_mem_append, List.forall_mem_append]
    exact ⟨⟨start, isNumberPart_takeWhile⟩, isNumberPart_fraction _ _⟩
  simp only [numberFrom]
  split
  · exact number
  · refine ⟨_, rfl, ?_⟩
    rw [List.forall_mem_append]
    refine ⟨number, fun c hc => isNumberPart_of_isWordPart ?_⟩
    exact List.all_eq_true.1 List.all_takeWhile c hc

theorem isWordPart_of_announcedBase? {mark : Char} {base : Nat}
    (h : announcedBase? mark = some base) : isWordPart mark = true := by
  cases part : isWordPart mark with
  | true => rfl
  | false =>
    rw [announcedBase?_eq_none (.inr (.inr part))] at h
    cases h

theorem number_parts {c : Char} {source : List Char} (opens : c.isDigit = true ∨ c = '.') :
    OfNumberParts (number (c :: source)) := by
  have first : isNumberPart c = true := by
    rcases opens with digit | rfl
    · exact isNumberPart_of_isWordPart (isWordPart_of_isDigitPart (isDigitPart_of_isDigit digit))
    · rfl
  have single {d : Char} (part : isNumberPart d = true) : ∀ e ∈ [d], isNumberPart e = true := by
    intro e he
    rw [List.mem_singleton.1 he]
    exact part
  unfold number
  split
  · exact numberFrom_parts (single (by decide))
  · split
    · rename_i mark rest _ _ base announced
      have letter := isNumberPart_of_isWordPart (isWordPart_of_announcedBase? announced)
      have start : ∀ d ∈ ['0', mark], isNumberPart d = true := by
        simp only [List.forall_mem_cons]
        exact ⟨by decide, letter, fun _ h => absurd h List.not_mem_nil⟩
      simp only
      split
      · exact numberFrom_parts start
      · refine ⟨'0' :: mark :: rest.takeWhile (isDigitPart base), rfl, ?_⟩
        have run : ∀ d ∈ rest.takeWhile (isDigitPart base), isNumberPart d = true :=
          isNumberPart_takeWhile
        simp only [List.forall_mem_cons] at start ⊢
        exact ⟨start.1, start.2.1, run⟩
    · exact numberFrom_parts (single (by decide))
  · rename_i heq
    obtain ⟨rfl, -⟩ := List.cons.inj heq
    exact numberFrom_parts (single first)
  · rename_i heq
    cases heq

theorem numberParts_of_number {c : Char} {source lexeme left : List Char}
    (opens : c.isDigit = true ∨ c = '.') (h : number (c :: source) = .ok (lexeme, left)) :
    ∀ d ∈ lexeme, isNumberPart d = true := by
  have parts := @number_parts c source opens
  rwa [h] at parts

/-- A number goes on after its start with digits of the base, separators and points. -/
theorem exists_append_of_numberFrom {base : Nat} {taken rest lexeme left : List Char}
    (h : numberFrom base taken rest = .ok (lexeme, left)) :
    ∃ body, lexeme = taken ++ body ∧ ∀ c ∈ body, isDigitPart base c = true ∨ c = '.' := by
  simp only [numberFrom] at h
  split at h
  · cases h
    refine ⟨_, List.append_assoc .., ?_⟩
    rw [List.forall_mem_append]
    exact ⟨fun c hc => .inl (isDigitPart_takeWhile c hc), isDigitPart_or_fraction _ _⟩
  · cases h

/-- A number is written after a letter that announces its base, or in decimal digits with
    separators and points. -/
theorem number_cases {c : Char} {source lexeme left : List Char}
    (opens : c.isDigit = true ∨ c = '.') (h : number (c :: source) = .ok (lexeme, left)) :
    (∃ mark body base, lexeme = '0' :: mark :: body ∧ announcedBase? mark = some base) ∨
      ∀ d ∈ lexeme, isDigitPart 10 d = true ∨ d = '.' := by
  have decimal {d : Char} {rest : List Char} (first : isDigitPart 10 d = true ∨ d = '.')
      (h : numberFrom 10 [d] rest = .ok (lexeme, left)) :
      ∀ e ∈ lexeme, isDigitPart 10 e = true ∨ e = '.' := by
    obtain ⟨body, rfl, parts⟩ := exists_append_of_numberFrom h
    exact List.forall_mem_cons.2 ⟨first, parts⟩
  unfold number at h
  split at h
  · exact .inr (decimal (.inr rfl) h)
  · split at h
    · rename_i mark _ _ _ base announced
      simp only at h
      split at h
      · obtain ⟨body, rfl, -⟩ := exists_append_of_numberFrom h
        exact .inl ⟨mark, body, base, rfl, announced⟩
      · cases h
    · exact .inr (decimal (.inl (isDigitPart_of_isDigit rfl)) h)
  · rename_i heq
    obtain ⟨rfl, -⟩ := List.cons.inj heq
    exact .inr (decimal (opens.imp_left isDigitPart_of_isDigit) h)
  · rename_i heq
    cases heq

end Lexeme

-- ============================================================================
-- Text literals
-- ============================================================================

namespace Lexeme

/-- The characters that the printer writes as escapes, and what follows the backslash. -/
def escapes : List (Char × Char) :=
  [('\\', '\\'), ('"', '"'), ('\n', 'n'), ('\r', 'r'), ('\t', 't'), ('\x07', 'a'),
    ('\x08', 'b'), ('\x0b', 'v'), ('\x0c', 'f')]

/-- The printer writes a character as it is, or as an escape that stands for it. -/
theorem literalChar_cases (c : Char) :
    (Expr.literalChar c = [c] ∧ c ≠ '\\' ∧ c ≠ '"' ∧ c ≠ '\n' ∧ c ≠ '\r') ∨
      ∃ mark, Expr.literalChar c = ['\\', mark] ∧ escape? '"' mark = some c := by
  have table : ∀ entry ∈ escapes, Expr.literalChar entry.1 = ['\\', entry.2] ∧
      escape? '"' entry.2 = some entry.1 := by decide
  by_cases h : c ∈ escapes.map Prod.fst
  · obtain ⟨entry, hentry, rfl⟩ := List.mem_map.1 h
    exact .inr ⟨entry.2, table entry hentry⟩
  · simp only [escapes, List.map_cons, List.map_nil, List.mem_cons, List.not_mem_nil, or_false,
      not_or] at h
    exact .inl ⟨by simp [Expr.literalChar, h], h.1, h.2.1, h.2.2.1, h.2.2.2.1⟩

/-- A character of a text and the characters that the printer writes for it. -/
theorem textFrom_literalChar (c : Char) (content rest : List Char) (length : Nat) :
    ∃ size, textFrom '"' content length (Expr.literalChar c ++ rest) =
      textFrom '"' (c :: content) size rest := by
  rcases literalChar_cases c with ⟨hc, notSlash, notQuote, notNewline, notReturn⟩ | ⟨mark, hc, h⟩
  · refine ⟨length + 1, ?_⟩
    rw [hc, List.singleton_append]
    conv => lhs; unfold textFrom
    simp [notNewline, notQuote, notSlash, notReturn]
  · refine ⟨length + 2, ?_⟩
    rw [hc, List.cons_append, List.singleton_append]
    conv => lhs; unfold textFrom
    simp [h]

theorem textFrom_literal (content rest : List Char) (length : Nat) (text : List Char) :
    ∃ size, textFrom '"' content length (text.flatMap Expr.literalChar ++ '"' :: rest) =
      .ok (content.reverse ++ text, size, rest) := by
  induction text generalizing content length with
  | nil =>
    refine ⟨length + 1, ?_⟩
    rw [List.flatMap_nil, List.nil_append, List.append_nil]
    unfold textFrom
    simp
  | cons c text ih =>
    obtain ⟨size, hsize⟩ := textFrom_literalChar c content
      (text.flatMap Expr.literalChar ++ '"' :: rest) length
    obtain ⟨total, htotal⟩ := ih (c :: content) size
    refine ⟨total, ?_⟩
    rw [List.flatMap_cons, List.append_assoc, hsize, htotal]
    simp

end Lexeme

/-- A printed text literal. -/
theorem lexes_textLiteral (text : String) (rest : List Char) :
    Lexes keywords ((Expr.textLiteral text).toList ++ rest) (.text text) rest := by
  obtain ⟨size, hsize⟩ := Lexeme.textFrom_literal [] rest 1 text.toList
  have lexes : Lexes keywords ('"' :: (text.toList.flatMap Expr.literalChar ++ '"' :: rest))
      (.text (String.ofList ([].reverse ++ text.toList))) rest := .text (.inr rfl) hsize
  simpa [Expr.textLiteral] using lexes

end ExprMachine
