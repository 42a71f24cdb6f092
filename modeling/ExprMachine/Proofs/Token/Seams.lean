/-
  ExprMachine.Proofs.Token.Seams

  A token stays the same when the source goes on differently after it, as long as what
  comes instead starts with a character that goes on with no token, such as a bracket or
  a blank.
-/
import ExprMachine.Proofs.Token.Shapes

namespace ExprMachine

namespace Lexeme

-- ============================================================================
-- Characters that go on with nothing
-- ============================================================================

/-- Whether a character goes on with no token that stands before it. -/
def breaks (c : Char) : Bool :=
  !isWordPart c && c != '.' && !Token.isPairEnd c

theorem breaks_iff {c : Char} : breaks c = true ↔
    isWordPart c = false ∧ c ≠ '.' ∧ Token.isPairEnd c = false := by
  simp [breaks, and_assoc]

theorem breaks_bracket {c : Char} (h : Token.isBracketChar c = true) : breaks c = true := by
  simp only [Token.isBracketChar, List.contains_iff_mem, List.mem_cons, List.not_mem_nil,
    or_false] at h
  rcases h with rfl | rfl | rfl | rfl | rfl | rfl <;> decide

theorem not_isDigitPart_of_breaks (base : Nat) {c : Char} (h : breaks c = true) :
    isDigitPart base c = false :=
  not_isDigitPart_of_not_isWordPart (breaks_iff.1 h).1

theorem not_isDigitOf_of_breaks (base : Nat) {c : Char} (h : breaks c = true) :
    Text.isDigitOf base c = false := by
  have := not_isDigitPart_of_breaks base h
  simp only [isDigitPart, Bool.or_eq_false_iff] at this
  exact this.2

theorem not_isDigit_of_breaks {c : Char} (h : breaks c = true) : c.isDigit = false := by
  rw [← Text.isDigitOf_ten]
  exact not_isDigitOf_of_breaks 10 h

-- ============================================================================
-- Sources that go on differently
-- ============================================================================

/-- `Resumes source other`: the other source is the same up to some place, and there it
    goes on with a character that breaks. -/
inductive Resumes : List Char → List Char → Prop where
  | here {source c rest} (stops : breaks c = true) : Resumes source (c :: rest)
  | later {c source other} (resumes : Resumes source other) :
      Resumes (c :: source) (c :: other)

theorem Resumes.append {source other : List Char} (h : Resumes source other)
    (taken : List Char) : Resumes (taken ++ source) (taken ++ other) := by
  induction taken with
  | nil => exact h
  | cons c taken ih => exact .later ih

/-- What stands at the front of neither the source nor a new piece stands at the front of
    no other source. -/
theorem Resumes.head {source other : List Char} {p : Char → Bool} (h : Resumes source other)
    (hbreaks : ∀ c, breaks c = true → p c = false) (hsource : source.head?.any p = false) :
    other.head?.any p = false := by
  cases h with
  | here stops => simpa using hbreaks _ stops
  | later _ => exact hsource

theorem Resumes.head_isWordPart {source other : List Char} (h : Resumes source other)
    (hsource : source.head?.any isWordPart = false) : other.head?.any isWordPart = false :=
  h.head (fun _ hc => (breaks_iff.1 hc).1) hsource

theorem head_dropWhile (p : Char → Bool) (source : List Char) :
    (source.dropWhile p).head?.any p = false := by
  cases h : source.dropWhile p with
  | nil => rfl
  | cons c rest =>
    have := List.head?_dropWhile_not p source
    rw [h] at this
    simpa using this

-- ============================================================================
-- Numbers
-- ============================================================================

/-- Where no fraction starts none starts afterwards. -/
theorem fraction_resumes {base : Nat} {text other : List Char}
    (h : fraction base text = ([], text)) (resumes : Resumes text other) :
    fraction base other = ([], other) := by
  cases resumes with
  | here stops => exact fraction_of_ne_point (breaks_iff.1 stops).2.1
  | @later c source other resumes =>
    by_cases point : c = '.'
    · subst point
      cases resumes with
      | here stops => simp [fraction, not_isDigitOf_of_breaks base stops]
      | later _ =>
        simp only [fraction] at h ⊢
        split at h
        · cases h
        · rename_i noDigit
          rw [if_neg noDigit]
    · exact fraction_of_ne_point point

/-- A fraction ends where it did. -/
theorem fraction_append_resumes {base : Nat} {text other : List Char}
    (resumes : Resumes (fraction base text).2 other)
    (ends : (fraction base text).2.head?.any isWordPart = false) :
    fraction base ((fraction base text).1 ++ other) = ((fraction base text).1, other) := by
  by_cases none : fraction base text = ([], text)
  · rw [none] at resumes ⊢
    exact fraction_resumes none resumes
  unfold fraction at none
  split at none
  · rename_i c rest
    split at none
    · rename_i digit
      have hother : other.head?.any (isDigitPart base) = false := by
        refine resumes.head (fun c hc => not_isDigitPart_of_breaks base hc) ?_
        rw [fraction_of_digit digit]
        exact head_dropWhile _ _
      have part : isDigitPart base c = true := by simp [isDigitPart, digit]
      rw [fraction_of_digit digit, List.takeWhile_cons_of_pos part]
      have run : ∀ d ∈ c :: rest.takeWhile (isDigitPart base), isDigitPart base d = true :=
        List.forall_mem_cons.2 ⟨part, List.all_eq_true.1 List.all_takeWhile⟩
      obtain ⟨htake, hdrop⟩ := span_append run hother
      rw [List.cons_append, List.cons_append, fraction_of_digit digit, ← List.cons_append, htake,
        hdrop]
    · exact absurd rfl none
  · exact absurd rfl none

/-- A number ends where it did, once its start is taken. -/
theorem numberFrom_resumes {base : Nat} {taken rest lexeme left other : List Char}
    (h : numberFrom base taken rest = .ok (lexeme, left)) (resumes : Resumes left other) :
    ∃ body, rest = body ++ left ∧ lexeme = taken ++ body ∧
      (body ++ other).takeWhile (isDigitPart base) = rest.takeWhile (isDigitPart base) ∧
        numberFrom base taken (body ++ other) = .ok (lexeme, other) := by
  simp only [numberFrom] at h
  split at h
  · rename_i stray
    obtain ⟨rfl, rfl⟩ := Prod.mk.inj (Except.ok.inj h)
    have ends := no_stray_iff.1 stray
    have hparts := fraction_append base (rest.dropWhile (isDigitPart base))
    have hhead : ((fraction base (rest.dropWhile (isDigitPart base))).1 ++ other).head?.any
        (isDigitPart base) = false := by
      refine (resumes.append _).head (fun c hc => not_isDigitPart_of_breaks base hc) ?_
      rw [hparts]
      exact head_dropWhile _ _
    obtain ⟨htake, hdrop⟩ := span_append
      (List.all_eq_true.1 (List.all_takeWhile (p := isDigitPart base) (l := rest))) hhead
    refine ⟨rest.takeWhile (isDigitPart base) ++
      (fraction base (rest.dropWhile (isDigitPart base))).1, ?_, ?_, ?_, ?_⟩
    · rw [List.append_assoc, hparts, List.takeWhile_append_dropWhile]
    · rw [List.append_assoc]
    · rw [List.append_assoc, htake]
    · have hfraction := fraction_append_resumes resumes ends
      have hstray := no_stray_iff.2 (resumes.head_isWordPart ends)
      simp only [numberFrom, List.append_assoc, htake, hdrop, hfraction, hstray, if_true]
  · cases h

theorem number_of_ne {c : Char} {rest : List Char} (point : c ≠ '.') (zero : c ≠ '0') :
    number (c :: rest) = numberFrom 10 [c] rest := by
  unfold number
  split
  · rename_i heq
    exact absurd (List.cons.inj heq).1 point
  · rename_i heq
    exact absurd (List.cons.inj heq).1 zero
  · rename_i heq
    obtain ⟨rfl, rfl⟩ := List.cons.inj heq
    rfl
  · rename_i heq
    cases heq

/-- A number ends where it did. -/
theorem number_resumes {c : Char} {source lexeme left other : List Char}
    (h : number (c :: source) = .ok (lexeme, left)) (resumes : Resumes left other) :
    ∃ body, source = body ++ left ∧ lexeme = c :: body ∧
      number (c :: (body ++ other)) = .ok (lexeme, other) := by
  have announces : ∀ d, breaks d = true → (announcedBase? d).isSome = false := fun d hd => by
    rw [announcedBase?_eq_none (.inr (.inr (breaks_iff.1 hd).1))]
    rfl
  by_cases point : c = '.'
  · subst point
    obtain ⟨body, hbody, hlexeme, -, hread⟩ := numberFrom_resumes h resumes
    exact ⟨body, hbody, hlexeme, hread⟩
  by_cases zero : c = '0'
  · subst zero
    by_cases plain : source.head?.any (fun mark => (announcedBase? mark).isSome) = false
    · rw [number_decimal (by decide) plain] at h
      obtain ⟨body, hbody, hlexeme, -, hread⟩ := numberFrom_resumes h resumes
      have plain' : (body ++ other).head?.any (fun mark => (announcedBase? mark).isSome) = false :=
        (resumes.append body).head announces (hbody ▸ plain)
      exact ⟨body, hbody, hlexeme, (number_decimal (by decide) plain').trans hread⟩
    · cases source with
      | nil => exact absurd rfl plain
      | cons mark rest =>
        obtain ⟨base, hbase⟩ : ∃ base, announcedBase? mark = some base :=
          Option.ne_none_iff_exists'.1 (by simpa using plain)
        simp only [number, hbase] at h
        split at h
        · rename_i digits
          obtain ⟨body, rfl, rfl, htake, hread⟩ := numberFrom_resumes h resumes
          refine ⟨mark :: body, rfl, rfl, ?_⟩
          simp only [number, List.cons_append, hbase, htake, digits, if_true, hread]
        · cases h
  · rw [number_of_ne point zero] at h
    obtain ⟨body, hbody, hlexeme, -, hread⟩ := numberFrom_resumes h resumes
    exact ⟨body, hbody, hlexeme, (number_of_ne point zero).trans hread⟩

-- ============================================================================
-- Text literals
-- ============================================================================

theorem escape?_newline {quote : Char} (h : quote ≠ '\n') : escape? quote '\n' = none := by
  simp [escape?, h.symm]

/-- A text literal ends with its quote and in its line, whatever follows. -/
theorem textFrom_append {quote : Char} (printable : quote ≠ '\n')
    {content source value left : List Char} {length size : Nat}
    (h : textFrom quote content length source = .ok (value, size, left)) :
    ∃ body, source = body ++ left ∧ size = length + body.length ∧ '\n' ∉ body ∧
      ∀ other, textFrom quote content length (body ++ other) = .ok (value, size, other) := by
  fun_induction textFrom quote content length source with
  | case1 => cases h
  | case2 => cases h
  | case3 content length rest newline =>
    cases h
    refine ⟨[quote], rfl, rfl, by simpa using printable.symm, fun other => ?_⟩
    rw [List.singleton_append, textFrom.eq_def]
    simp only [newline, if_false, if_true]
  | case4 => cases h
  | case5 => cases h
  | case6 content length d rest meant escaped newline quoted ih =>
    obtain ⟨body, rfl, rfl, hbody, hread⟩ := ih h
    have newlineFree : d ≠ '\n' := by
      rintro rfl
      rw [escape?_newline printable] at escaped
      cases escaped
    refine ⟨'\\' :: d :: body, rfl, by simp only [List.length_cons]; omega, ?_, fun other => ?_⟩
    · simp [newlineFree.symm, hbody]
    · rw [List.cons_append, List.cons_append, textFrom.eq_def]
      simp only [newline, quoted, if_false, if_true, escaped, hread]
  | case7 content length c rest newline quoted plain ih =>
    obtain ⟨body, rfl, rfl, hbody, hread⟩ := ih h
    refine ⟨c :: body, rfl, by simp only [List.length_cons]; omega, ?_, fun other => ?_⟩
    · simp [Ne.symm newline, hbody]
    · rw [List.cons_append, textFrom.eq_def]
      simp only [newline, quoted, plain, if_false, hread]

-- ============================================================================
-- Words
-- ============================================================================

/-- A word ends where it did. -/
theorem word_resumes {c : Char} {source other : List Char} (opens : isWordStart c = true)
    (resumes : Resumes ((c :: source).dropWhile isWordPart) other) :
    ∃ tail, (c :: source).takeWhile isWordPart = c :: tail ∧
      source = tail ++ (c :: source).dropWhile isWordPart ∧
        (c :: (tail ++ other)).takeWhile isWordPart = c :: tail ∧
          (c :: (tail ++ other)).dropWhile isWordPart = other := by
  have part := Token.isWordPart_of_isWordStart opens
  rw [List.dropWhile_cons_of_pos part] at resumes ⊢
  have parts : ∀ d ∈ c :: source.takeWhile isWordPart, isWordPart d = true :=
    List.forall_mem_cons.2 ⟨part, List.all_eq_true.1 List.all_takeWhile⟩
  obtain ⟨htake, hdrop⟩ := span_append parts (resumes.head_isWordPart (head_dropWhile _ _))
  exact ⟨source.takeWhile isWordPart, List.takeWhile_cons_of_pos part,
    List.takeWhile_append_dropWhile.symm, htake, hdrop⟩

/-- Sources with the same run of characters at the front have the same first character, if
    it stands in the run. -/
theorem head_of_takeWhile_eq {p q : Char → Bool} {source other : List Char}
    (h : source.takeWhile p = other.takeWhile p) (weaker : ∀ c, q c = true → p c = true)
    (first : other.head?.any q = true) : source.head?.any q = true := by
  cases other with
  | nil => cases first
  | cons c rest =>
    have hc : q c = true := by simpa using first
    rw [List.takeWhile_cons_of_pos (weaker c hc)] at h
    cases source with
    | nil => cases h
    | cons d tail =>
      rw [List.takeWhile_cons] at h
      split at h
      · obtain ⟨rfl, -⟩ := List.cons.inj h
        exact first
      · cases h

end Lexeme

-- ============================================================================
-- Tokens
-- ============================================================================

/-- A token takes its lexeme off the front, and the same lexeme when the source goes on
    differently after it. -/
theorem Lexes.resume {keywords : List String} {source left other : List Char} {symbol : Symbol}
    (h : Lexes keywords source symbol left) (resumes : Lexeme.Resumes left other) :
    ∃ lexeme, source = lexeme ++ left ∧ Lexes keywords (lexeme ++ other) symbol other := by
  cases h with
  | @text quote source content length _ opens read =>
    have printable : quote ≠ '\n' := by rcases opens with rfl | rfl <;> decide
    obtain ⟨body, rfl, -, -, hread⟩ := Lexeme.textFrom_append printable read
    exact ⟨quote :: body, rfl, .text opens (hread other)⟩
  | @number c source lexeme _ opens read =>
    rcases opens with digit | ⟨rfl, digit⟩
    · obtain ⟨body, rfl, rfl, hread⟩ := Lexeme.number_resumes read resumes
      exact ⟨c :: body, rfl, .number (.inl digit) hread⟩
    · obtain ⟨body, rfl, rfl, htake, hread⟩ := Lexeme.numberFrom_resumes read resumes
      have digit' := Lexeme.head_of_takeWhile_eq htake
        (fun c => Lexeme.isDigitPart_of_isDigit) digit
      exact ⟨'.' :: body, rfl, .number (.inr ⟨rfl, digit'⟩) hread⟩
  | point plain =>
    have plain' := resumes.head (fun c hc => Lexeme.not_isDigit_of_breaks hc) plain
    exact ⟨['.'], rfl, .point plain'⟩
  | @bracket c _ opens => exact ⟨[c], rfl, .bracket opens⟩
  | @lone c _ opens => exact ⟨[c], rfl, .lone opens⟩
  | @pair c d _ opens ends => exact ⟨[c, d], rfl, .pair opens ends⟩
  | @half c _ opens plain =>
    have plain' := resumes.head (fun c hc => (Lexeme.breaks_iff.1 hc).2.2) plain
    exact ⟨[c], rfl, .half opens plain'⟩
  | @keyword c source word _ opens hword hrest known =>
    subst hrest
    obtain ⟨tail, htail, hsource, htake, hdrop⟩ := Lexeme.word_resumes opens resumes
    rw [← hword, htail] at known ⊢
    exact ⟨c :: tail, congrArg _ hsource, .keyword opens htake hdrop known⟩
  | @word c source word _ opens hword hrest unknown =>
    subst hrest
    obtain ⟨tail, htail, hsource, htake, hdrop⟩ := Lexeme.word_resumes opens resumes
    rw [← hword, htail] at unknown ⊢
    exact ⟨c :: tail, congrArg _ hsource, .word opens htake hdrop unknown⟩

end ExprMachine
