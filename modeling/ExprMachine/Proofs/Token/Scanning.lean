/-
  ExprMachine.Proofs.Token.Scanning

  Which symbols a source text spells, as a relation without places: one rule for each
  form of a token. The scanner finds exactly these symbols.
-/
import ExprMachine.Proofs.Expr.Reading
import ExprMachine.Token.Scan

namespace ExprMachine

-- ============================================================================
-- Classes of characters
-- ============================================================================

namespace Text

/-- Whether no range of one table meets a range of the other. -/
def rangesApart (ranges others : List (Nat × Nat)) : Bool :=
  ranges.all fun range => others.all fun other =>
    range.2.blt other.1 || other.2.blt range.1

theorem not_inRanges_of_apart {ranges others : List (Nat × Nat)} {c : Char}
    (apart : rangesApart ranges others = true) (h : inRanges ranges c = true) :
    inRanges others c = false := by
  simp only [rangesApart, List.all_eq_true, Bool.or_eq_true, Nat.blt_eq] at apart
  simp only [inRanges, List.any_eq_true, Bool.and_eq_true, decide_eq_true_eq] at h
  obtain ⟨range, hrange, hlow, hhigh⟩ := h
  rw [inRanges, List.any_eq_false]
  intro other hother
  have := apart range hrange other hother
  simp only [Bool.and_eq_true, decide_eq_true_eq]
  omega

theorem isAlpha_iff {c : Char} :
    c.isAlpha = true ↔ 65 ≤ c.toNat ∧ c.toNat ≤ 90 ∨ 97 ≤ c.toNat ∧ c.toNat ≤ 122 := by
  delta Char.isAlpha Char.isUpper Char.isLower
  simp only [Bool.or_eq_true, Bool.and_eq_true, decide_eq_true_eq]
  exact Iff.rfl

theorem isDigit_iff {c : Char} : c.isDigit = true ↔ 48 ≤ c.toNat ∧ c.toNat ≤ 57 := by
  simp only [Char.isDigit, Bool.and_eq_true, decide_eq_true_eq]
  exact Iff.rfl

theorem isBlank_eq_false_of_graphic {c : Char} (low : 33 ≤ c.toNat) (high : c.toNat ≤ 126) :
    isBlank c = false := by
  simp only [isBlank, inRanges, blankRanges, List.any_cons, List.any_nil, Bool.or_false,
    Bool.or_eq_false_iff, Bool.and_eq_false_iff, decide_eq_false_iff_not]
  omega

theorem not_isBlank_of_isAlphabetic {c : Char} (h : isAlphabetic c = true) :
    isBlank c = false := by
  unfold isAlphabetic at h
  split at h
  · have := isAlpha_iff.1 h
    exact isBlank_eq_false_of_graphic (by omega) (by omega)
  · exact not_inRanges_of_apart (by decide +kernel) h

theorem not_isBlank_of_isDigit {c : Char} (h : c.isDigit = true) : isBlank c = false := by
  have := isDigit_iff.1 h
  exact isBlank_eq_false_of_graphic (by omega) (by omega)

theorem not_isAlphabetic_of_isDigit {c : Char} (h : c.isDigit = true) :
    isAlphabetic c = false := by
  have := isDigit_iff.1 h
  unfold isAlphabetic
  rw [if_pos (by omega)]
  cases halpha : c.isAlpha with
  | false => rfl
  | true =>
    have := isAlpha_iff.1 halpha
    omega

end Text

namespace Lexeme

theorem not_isBlank_of_isWordStart {c : Char} (h : isWordStart c = true) :
    Text.isBlank c = false := by
  simp only [isWordStart, Bool.or_eq_true, beq_iff_eq] at h
  rcases h with (h | rfl) | rfl
  · exact Text.not_isBlank_of_isAlphabetic h
  · decide
  · decide

theorem not_isDigit_of_isWordStart {c : Char} (h : isWordStart c = true) :
    c.isDigit = false := by
  cases hdigit : c.isDigit with
  | false => rfl
  | true =>
    simp only [isWordStart, Text.not_isAlphabetic_of_isDigit hdigit, Bool.false_or,
      Bool.or_eq_true, beq_iff_eq] at h
    rcases h with rfl | rfl
    · exact absurd hdigit (by decide)
    · exact absurd hdigit (by decide)

/-- No punctuation starts a word. -/
theorem ne_of_isWordStart {c d : Char} (h : isWordStart c = true)
    (hd : isWordStart d = false) : c ≠ d := by
  rintro rfl
  rw [h] at hd
  cases hd

end Lexeme

-- ============================================================================
-- One token
-- ============================================================================

/-- `Lexes keywords source symbol rest`: the symbol stands at the front of the source,
    and these characters are left after it. -/
inductive Lexes (keywords : List String) : List Char → Symbol → List Char → Prop where
  | text {quote source content length rest} (opens : quote = '\'' ∨ quote = '"')
      (read : Lexeme.text quote source = .ok (content, length, rest)) :
      Lexes keywords (quote :: source) (.text (String.ofList content)) rest
  | number {c source lexeme rest}
      (opens : c.isDigit = true ∨ c = '.' ∧ source.head?.any Char.isDigit = true)
      (read : Lexeme.number (c :: source) = .ok (lexeme, rest)) :
      Lexes keywords (c :: source) (.number (String.ofList lexeme)) rest
  | point {rest} (plain : rest.head?.any Char.isDigit = false) :
      Lexes keywords ('.' :: rest) (.operator (String.ofList ['.'])) rest
  | bracket {c rest} (opens : Token.isBracketChar c = true) :
      Lexes keywords (c :: rest) (.bracket (String.ofList [c])) rest
  | lone {c rest} (opens : Token.isLoneOperator c = true) :
      Lexes keywords (c :: rest) (.operator (String.ofList [c])) rest
  | pair {c d rest} (opens : Token.isPairStart c = true) (ends : Token.isPairEnd d = true) :
      Lexes keywords (c :: d :: rest) (.operator (String.ofList [c, d])) rest
  | half {c rest} (opens : Token.isPairStart c = true)
      (plain : rest.head?.any Token.isPairEnd = false) :
      Lexes keywords (c :: rest) (.operator (String.ofList [c])) rest
  | keyword {c source word rest} (opens : Lexeme.isWordStart c = true)
      (hword : (c :: source).takeWhile Lexeme.isWordPart = word)
      (hrest : (c :: source).dropWhile Lexeme.isWordPart = rest)
      (known : keywords.contains (String.ofList word) = true) :
      Lexes keywords (c :: source) (.operator (String.ofList word)) rest
  | word {c source word rest} (opens : Lexeme.isWordStart c = true)
      (hword : (c :: source).takeWhile Lexeme.isWordPart = word)
      (hrest : (c :: source).dropWhile Lexeme.isWordPart = rest)
      (unknown : keywords.contains (String.ofList word) = false) :
      Lexes keywords (c :: source) (.word (String.ofList word)) rest

namespace Token

variable {keywords : List String} {place : Position} {c : Char} {rest : List Char}

theorem next_bracket (opens : isBracketChar c = true) :
    next keywords place c rest = .ok (ofLexeme .bracket place [c] rest) := by
  simp only [isBracketChar, List.contains_iff_mem, List.mem_cons, List.not_mem_nil,
    or_false] at opens
  rcases opens with rfl | rfl | rfl | rfl | rfl | rfl <;> rfl

theorem next_lone (opens : isLoneOperator c = true) :
    next keywords place c rest = .ok (ofLexeme .operator place [c] rest) := by
  simp only [isLoneOperator, List.contains_iff_mem, List.mem_cons, List.not_mem_nil,
    or_false] at opens
  rcases opens with rfl | rfl | rfl | rfl | rfl | rfl | rfl | rfl | rfl <;> rfl

theorem next_pairStart (opens : isPairStart c = true) :
    next keywords place c rest =
      match rest with
      | d :: rest =>
        if isPairEnd d then .ok (ofLexeme .operator place [c, d] rest)
        else .ok (ofLexeme .operator place [c] (d :: rest))
      | [] => .ok (ofLexeme .operator place [c] []) := by
  simp only [isPairStart, List.contains_iff_mem, List.mem_cons, List.not_mem_nil,
    or_false] at opens
  rcases opens with rfl | rfl | rfl | rfl | rfl | rfl <;> rfl

theorem not_punctuation_of_isWordStart (opens : Lexeme.isWordStart c = true) :
    isBracketChar c = false ∧ isLoneOperator c = false ∧ isPairStart c = false := by
  refine ⟨?_, ?_, ?_⟩
  · cases h : isBracketChar c with
    | false => rfl
    | true =>
      simp only [isBracketChar, List.contains_iff_mem, List.mem_cons, List.not_mem_nil,
        or_false] at h
      rcases h with rfl | rfl | rfl | rfl | rfl | rfl <;> cases opens
  · cases h : isLoneOperator c with
    | false => rfl
    | true =>
      simp only [isLoneOperator, List.contains_iff_mem, List.mem_cons, List.not_mem_nil,
        or_false] at h
      rcases h with rfl | rfl | rfl | rfl | rfl | rfl | rfl | rfl | rfl <;> cases opens
  · cases h : isPairStart c with
    | false => rfl
    | true =>
      simp only [isPairStart, List.contains_iff_mem, List.mem_cons, List.not_mem_nil,
        or_false] at h
      rcases h with rfl | rfl | rfl | rfl | rfl | rfl <;> cases opens

theorem next_word (opens : Lexeme.isWordStart c = true) :
    next keywords place c rest = .ok (nextWord keywords place (c :: rest)) := by
  have notBlank := Lexeme.not_isBlank_of_isWordStart opens
  have notDigit := Lexeme.not_isDigit_of_isWordStart opens
  obtain ⟨notBracket, notLone, notPair⟩ := not_punctuation_of_isWordStart opens
  have ne {d : Char} (hd : Lexeme.isWordStart d = false) : c ≠ d :=
    Lexeme.ne_of_isWordStart opens hd
  have notPoint := ne (d := '.') (by decide)
  have notQuote := ne (d := '"') (by decide)
  have notApostrophe := ne (d := '\'') (by decide)
  simp [next, notBlank, notDigit, notBracket, notLone, notPair, notPoint, notQuote,
    notApostrophe, opens]

theorem next_number
    (opens : c.isDigit = true ∨ c = '.' ∧ rest.head?.any Char.isDigit = true) :
    next keywords place c rest = nextNumber place (c :: rest) := by
  rcases opens with opens | ⟨rfl, opens⟩
  · have notBlank := Text.not_isBlank_of_isDigit opens
    have notQuote : ¬ (c = '\'' ∨ c = '"') := by
      rintro (rfl | rfl) <;> cases opens
    simp [next, notBlank, notQuote, opens]
  · have notBlank : Text.isBlank '.' = false := by decide
    have notDigit : '.'.isDigit = false := by decide
    simp [next, notBlank, notDigit, opens]

theorem next_text (opens : c = '\'' ∨ c = '"') :
    next keywords place c rest = nextText place c rest := by
  rcases opens with rfl | rfl <;> rfl

/-- The scanner finds the symbol at the front wherever the source starts. -/
theorem next_of_lexes {source left : List Char} {symbol : Symbol}
    (h : Lexes keywords source symbol left) :
    ∃ c rest, source = c :: rest ∧ ∀ place, ∃ token cursor,
      next keywords place c rest = .ok (some token, cursor) ∧ token.symbol = symbol ∧
        cursor.rest = left := by
  cases h with
  | @text quote source content length _ opens read =>
    refine ⟨_, _, rfl, fun place => ?_⟩
    rw [next_text opens]
    simp only [nextText, read]
    exact ⟨_, _, rfl, rfl, rfl⟩
  | number opens read =>
    refine ⟨_, _, rfl, fun place => ?_⟩
    rw [next_number opens]
    simp only [nextNumber, read]
    exact ⟨_, _, rfl, rfl, rfl⟩
  | point plain =>
    refine ⟨_, _, rfl, fun place => ?_⟩
    have notBlank : Text.isBlank '.' = false := by decide
    have notDigit : '.'.isDigit = false := by decide
    simp only [next, notBlank, notDigit, plain]
    exact ⟨_, _, rfl, rfl, rfl⟩
  | bracket opens => exact ⟨_, _, rfl, fun place => ⟨_, _, next_bracket opens, rfl, rfl⟩⟩
  | lone opens => exact ⟨_, _, rfl, fun place => ⟨_, _, next_lone opens, rfl, rfl⟩⟩
  | pair opens ends =>
    refine ⟨_, _, rfl, fun place => ?_⟩
    rw [next_pairStart opens]
    simp only [ends, if_true]
    exact ⟨_, _, rfl, rfl, rfl⟩
  | @half c _ opens plain =>
    refine ⟨_, _, rfl, fun place => ?_⟩
    rw [next_pairStart opens]
    cases left with
    | nil => exact ⟨_, _, rfl, rfl, rfl⟩
    | cons d rest =>
      have plain : isPairEnd d = false := by simpa using plain
      simp only [plain]
      exact ⟨_, _, rfl, rfl, rfl⟩
  | keyword opens hword hrest known =>
    refine ⟨_, _, rfl, fun place => ?_⟩
    rw [next_word opens, nextWord]
    simp only [hword, hrest, known, if_true]
    exact ⟨_, _, rfl, rfl, rfl⟩
  | word opens hword hrest unknown =>
    refine ⟨_, _, rfl, fun place => ?_⟩
    rw [next_word opens, nextWord]
    simp only [hword, hrest, unknown]
    exact ⟨_, _, rfl, rfl, rfl⟩

theorem symbol_of_nextText {quote : Char} {found : Option Token} {cursor : Cursor}
    (h : nextText place quote rest = .ok (found, cursor)) :
    ∃ content length, Lexeme.text quote rest = .ok (content, length, cursor.rest) ∧
      found.map symbol = some (.text (String.ofList content)) := by
  unfold nextText at h
  split at h
  · rename_i content length after read
    cases h
    exact ⟨content, length, read, rfl⟩
  · cases h

theorem symbol_of_nextNumber {source : List Char} {found : Option Token} {cursor : Cursor}
    (h : nextNumber place source = .ok (found, cursor)) :
    ∃ lexeme, Lexeme.number source = .ok (lexeme, cursor.rest) ∧
      found.map symbol = some (.number (String.ofList lexeme)) := by
  unfold nextNumber at h
  split at h
  · rename_i lexeme after read
    cases h
    exact ⟨lexeme, read, rfl⟩
  · cases h

/-- Only a blank gives no token. -/
theorem blank_of_next {cursor : Cursor} (h : next keywords place c rest = .ok (none, cursor)) :
    Text.isBlank c = true ∧ cursor.rest = rest := by
  cases found_of_next h with
  | blank isBlank => exact ⟨isBlank, rfl⟩
  | text _ read =>
    obtain ⟨_, _, _, absent⟩ := symbol_of_nextText read
    cases absent
  | number _ read =>
    obtain ⟨_, _, absent⟩ := symbol_of_nextNumber read
    cases absent

/-- Whatever token the scanner finds stands at the front. -/
theorem lexes_of_next {token : Token} {cursor : Cursor}
    (h : next keywords place c rest = .ok (some token, cursor)) :
    Lexes keywords (c :: rest) token.symbol cursor.rest := by
  cases found_of_next h with
  | text opens read =>
    obtain ⟨content, length, hread, hsymbol⟩ := symbol_of_nextText read
    rw [Option.some.inj hsymbol]
    exact .text opens hread
  | number opens read =>
    obtain ⟨lexeme, hread, hsymbol⟩ := symbol_of_nextNumber read
    rw [Option.some.inj hsymbol]
    exact .number opens hread
  | point isPoint plain =>
    subst isPoint
    exact .point plain
  | bracket opens => exact .bracket opens
  | lone opens => exact .lone opens
  | half opens plain => exact .half opens plain
  | pair opens hrest ends =>
    rw [hrest]
    exact .pair opens ends
  | word opens =>
    simp only [Token.symbol]
    split
    · rename_i known
      exact .keyword opens rfl rfl known
    · rename_i unknown
      exact .word opens rfl rfl (Bool.eq_false_iff.2 unknown)

end Token

-- ============================================================================
-- All tokens
-- ============================================================================

/-- `Scans keywords source symbols`: the source spells the symbols, with blanks between
    them. -/
inductive Scans (keywords : List String) : List Char → List Symbol → Prop where
  | nil : Scans keywords [] []
  | blank {c source symbols} (isBlank : Text.isBlank c = true)
      (scans : Scans keywords source symbols) : Scans keywords (c :: source) symbols
  | token {source symbol rest symbols} (lexes : Lexes keywords source symbol rest)
      (scans : Scans keywords rest symbols) : Scans keywords source (symbol :: symbols)

/-- No symbol at the front of a source marks the end. -/
theorem Lexes.kind_ne {keywords : List String} {source rest : List Char} {symbol : Symbol}
    (h : Lexes keywords source symbol rest) : symbol.kind ≠ .endOfInput := by
  cases h <;> exact fun h => by cases h

/-- The symbols before the mark of the end. -/
def Token.spelt (tokens : List Token) : List Symbol :=
  symbols (tokens.takeWhile (!·.isEnd))

namespace Token

variable {keywords : List String}

theorem scanFrom_nil {found : Array Token} {cursor : Cursor} (hrest : cursor.rest = []) :
    scanFrom keywords found cursor =
      .ok (found.toList ++ [⟨.endOfInput, cursor.position, ""⟩]) := by
  unfold scanFrom
  split
  · rw [Array.toList_push]
  · rename_i heq
    cases hrest.symm.trans heq

/-- What the scanner does with what it has found at the front. -/
def goOn (keywords : List String) (found : Array Token) :
    Except LexError (Option Token × Cursor) → Except LexError (List Token)
  | .error error => .error error
  | .ok (none, after) => scanFrom keywords found after
  | .ok (some token, after) => scanFrom keywords (found.push token) after

theorem scanFrom_cons {found : Array Token} {cursor : Cursor} {c : Char} {rest : List Char}
    (hrest : cursor.rest = c :: rest) :
    scanFrom keywords found cursor =
      goOn keywords found (next keywords cursor.position c rest) := by
  rw [scanFrom]
  split
  · rename_i heq
    cases hrest.symm.trans heq
  · rename_i heq
    cases hrest.symm.trans heq
    split <;> rename_i heq <;> rw [heq, goOn]

theorem scanFrom_blank {found : Array Token} {cursor after : Cursor} {c : Char}
    {rest : List Char} (hrest : cursor.rest = c :: rest)
    (hnext : next keywords cursor.position c rest = .ok (none, after)) :
    scanFrom keywords found cursor = scanFrom keywords found after := by
  rw [scanFrom_cons hrest, hnext, goOn]

theorem scanFrom_token {found : Array Token} {cursor after : Cursor} {c : Char}
    {rest : List Char} {token : Token} (hrest : cursor.rest = c :: rest)
    (hnext : next keywords cursor.position c rest = .ok (some token, after)) :
    scanFrom keywords found cursor = scanFrom keywords (found.push token) after := by
  rw [scanFrom_cons hrest, hnext, goOn]

theorem isEnd_of_lexes {source rest : List Char} {token : Token}
    (h : Lexes keywords source token.symbol rest) : token.isEnd = false := by
  simpa [isEnd, Token.symbol] using h.kind_ne

/-- A source that spells symbols is scanned to tokens of these symbols and the end. -/
theorem scanFrom_of_scans {found : Array Token} {cursor : Cursor} {spelt : List Symbol}
    (h : Scans keywords cursor.rest spelt) :
    ∃ tokens mark, scanFrom keywords found cursor = .ok (found.toList ++ tokens ++ [mark]) ∧
      symbols tokens = spelt ∧ mark.kind = .endOfInput ∧
        ∀ token ∈ tokens, token.isEnd = false := by
  generalize hsource : cursor.rest = source at h
  induction h generalizing found cursor with
  | nil =>
    refine ⟨[], ⟨.endOfInput, cursor.position, ""⟩, ?_, rfl, rfl, by simp⟩
    rw [scanFrom_nil hsource, List.append_nil]
  | @blank c source symbols isBlank _ ih =>
    have hnext : next keywords cursor.position c source =
        .ok (none, ⟨source, cursor.position.advance c⟩) := by
      simp [next, isBlank]
    rw [scanFrom_blank hsource hnext]
    exact ih rfl
  | @token source symbol rest symbols lexes _ ih =>
    obtain ⟨c, tail, rfl, hfirst⟩ := next_of_lexes lexes
    obtain ⟨token, after, hnext, rfl, hafter⟩ := hfirst cursor.position
    obtain ⟨tokens, mark, hscan, rfl, hmark, hends⟩ := @ih (found.push token) after hafter
    refine ⟨token :: tokens, mark, ?_, rfl, hmark, ?_⟩
    · rw [scanFrom_token hsource hnext, hscan]
      simp
    · exact List.forall_mem_cons.2 ⟨isEnd_of_lexes lexes, hends⟩

theorem scan_of_scans {source : String} {spelling : List Symbol}
    (h : Scans keywords source.toList spelling) :
    ∃ tokens, scan keywords source = .ok tokens ∧ spelt tokens = spelling := by
  obtain ⟨tokens, mark, hscan, htokens, hmark, hends⟩ :=
    @scanFrom_of_scans keywords #[] ⟨source.toList, .start⟩ spelling h
  refine ⟨tokens ++ [mark], by simpa [scan] using hscan, ?_⟩
  rw [spelt, List.takeWhile_append_of_pos (by simpa using hends)]
  simp [isEnd, hmark, htokens]

/-- Whatever the scanner finds the source spells. -/
theorem scans_of_scanFrom {found : Array Token} {cursor : Cursor} {tokens : List Token}
    (h : scanFrom keywords found cursor = .ok tokens) :
    ∃ more mark, tokens = found.toList ++ more ++ [mark] ∧
      Scans keywords cursor.rest (symbols more) ∧ mark.kind = .endOfInput ∧
        ∀ token ∈ more, token.isEnd = false := by
  fun_induction scanFrom keywords found cursor with
  | case1 found cursor hrest =>
    cases h
    exact ⟨[], ⟨.endOfInput, cursor.position, ""⟩, by simp, by rw [hrest]; exact .nil, rfl,
      by simp⟩
  | case2 => cases h
  | case3 found cursor c rest hrest after hnext ih =>
    obtain ⟨more, mark, htokens, hscans, hmark⟩ := ih h
    refine ⟨more, mark, htokens, ?_, hmark⟩
    obtain ⟨isBlank, hafter⟩ := blank_of_next hnext
    rw [hrest, ← hafter]
    exact .blank isBlank hscans
  | case4 found cursor c rest hrest token after hnext ih =>
    obtain ⟨more, mark, htokens, hscans, hmark, hends⟩ := ih h
    have lexes := lexes_of_next hnext
    refine ⟨token :: more, mark, by simp [htokens], ?_, hmark, ?_⟩
    · rw [hrest]
      exact .token lexes hscans
    · exact List.forall_mem_cons.2 ⟨isEnd_of_lexes lexes, hends⟩

theorem scans_of_scan {source : String} {tokens : List Token}
    (h : scan keywords source = .ok tokens) : Scans keywords source.toList (spelt tokens) := by
  obtain ⟨more, mark, rfl, hscans, hmark, hends⟩ := scans_of_scanFrom h
  have : spelt ((#[] : Array Token).toList ++ more ++ [mark]) = symbols more := by
    rw [spelt, List.nil_append, List.takeWhile_append_of_pos (by simpa using hends)]
    simp [isEnd, hmark]
  rw [this]
  exact hscans

end Token

end ExprMachine
