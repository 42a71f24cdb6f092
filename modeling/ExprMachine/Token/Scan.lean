/-
  ExprMachine.Token.Scan

  From a source text to its tokens. Blanks separate tokens and are dropped; a
  word from the list of keywords is an operator; the last token marks the end of
  the source.
-/
import ExprMachine.Token.Lexeme

namespace ExprMachine.Token

/-- The word operators of the standard language. -/
def standardKeywords : List String := ["not", "in", "and", "or"]

/-- What is left of a source, and where it starts. -/
structure Cursor where
  rest : List Char
  position : Position

/-! ## The kinds of first characters -/

/-- The characters that are brackets. -/
def isBracketChar (c : Char) : Bool :=
  ['(', ')', '[', ']', '\x7b', '\x7d'].contains c

/-- The characters that are operators by themselves. -/
def isLoneOperator (c : Char) : Bool :=
  ['?', ':', '%', ',', '+', '-', '*', '/', '^'].contains c

/-- The characters that start an operator of one or two characters. -/
def isPairStart (c : Char) : Bool :=
  ['&', '|', '!', '=', '<', '>'].contains c

/-- The characters that complete an operator of two characters. -/
def isPairEnd (c : Char) : Bool :=
  ['&', '|', '='].contains c

/-! ## One token -/

/-- The token of a kind whose value is its own characters, and what is left. -/
def ofLexeme (kind : TokenKind) (place : Position) (lexeme rest : List Char) :
    Option Token × Cursor :=
  (some ⟨kind, place, String.ofList lexeme⟩, ⟨rest, place.advanceAll lexeme⟩)

/-- A number at this place. -/
def nextNumber (place : Position) (source : List Char) :
    Except LexError (Option Token × Cursor) :=
  match Lexeme.number source with
  | .ok (lexeme, rest) => .ok (ofLexeme .number place lexeme rest)
  | .error cause => .error ⟨place, cause⟩

/-- A text literal at this place, after its opening quote. -/
def nextText (place : Position) (quote : Char) (rest : List Char) :
    Except LexError (Option Token × Cursor) :=
  match Lexeme.text quote rest with
  | .ok (content, length, rest) =>
    .ok (some ⟨.text, place, String.ofList content⟩,
      ⟨rest, ⟨place.line, place.offset + length⟩⟩)
  | .error fault => .error ⟨⟨place.line, place.offset + fault.before⟩, fault.cause⟩

/-- A word at this place. -/
def nextWord (keywords : List String) (place : Position) (source : List Char) :
    Option Token × Cursor :=
  let word := source.takeWhile Lexeme.isWordPart
  let kind := if keywords.contains (String.ofList word) then .operator else .identifier
  ofLexeme kind place word (source.dropWhile Lexeme.isWordPart)

/-- What stands at the front of a source: a blank, which is no token, or a token.
    A point belongs to a number when a digit follows it. -/
def next (keywords : List String) (place : Position) (c : Char) (rest : List Char) :
    Except LexError (Option Token × Cursor) :=
  if Text.isBlank c then .ok (none, ⟨rest, place.advance c⟩)
  else if c = '\'' ∨ c = '"' then nextText place c rest
  else if c.isDigit then nextNumber place (c :: rest)
  else if c = '.' then
    if rest.head?.any Char.isDigit then nextNumber place (c :: rest)
    else .ok (ofLexeme .operator place [c] rest)
  else if isBracketChar c then .ok (ofLexeme .bracket place [c] rest)
  else if isLoneOperator c then .ok (ofLexeme .operator place [c] rest)
  else if isPairStart c then
    match rest with
    | d :: rest =>
      if isPairEnd d then .ok (ofLexeme .operator place [c, d] rest)
      else .ok (ofLexeme .operator place [c] (d :: rest))
    | [] => .ok (ofLexeme .operator place [c] [])
  else if Lexeme.isWordStart c then .ok (nextWord keywords place (c :: rest))
  else .error ⟨place, .unexpectedCharacter c⟩

theorem isWordPart_of_isWordStart {c : Char} (h : Lexeme.isWordStart c = true) :
    Lexeme.isWordPart c = true := by
  unfold Lexeme.isWordStart at h
  unfold Lexeme.isWordPart
  grind

/-- What a step can give: a blank, which is no token, or one of the forms of a token. -/
inductive Found (keywords : List String) (place : Position) (c : Char) (rest : List Char) :
    Option Token × Cursor → Prop where
  | blank (isBlank : Text.isBlank c = true) :
      Found keywords place c rest (none, ⟨rest, place.advance c⟩)
  | text {result} (opens : c = '\'' ∨ c = '"') (read : nextText place c rest = .ok result) :
      Found keywords place c rest result
  | number {result} (opens : c.isDigit = true ∨ c = '.' ∧ rest.head?.any Char.isDigit = true)
      (read : nextNumber place (c :: rest) = .ok result) : Found keywords place c rest result
  | point (isPoint : c = '.') (plain : rest.head?.any Char.isDigit = false) :
      Found keywords place c rest (ofLexeme .operator place [c] rest)
  | bracket (opens : isBracketChar c = true) :
      Found keywords place c rest (ofLexeme .bracket place [c] rest)
  | lone (opens : isLoneOperator c = true) :
      Found keywords place c rest (ofLexeme .operator place [c] rest)
  | half (opens : isPairStart c = true) (plain : rest.head?.any isPairEnd = false) :
      Found keywords place c rest (ofLexeme .operator place [c] rest)
  | pair {d after} (opens : isPairStart c = true) (hrest : rest = d :: after)
      (ends : isPairEnd d = true) :
      Found keywords place c rest (ofLexeme .operator place [c, d] after)
  | word (opens : Lexeme.isWordStart c = true) :
      Found keywords place c rest (nextWord keywords place (c :: rest))

theorem found_of_next {keywords : List String} {place : Position} {c : Char} {rest : List Char}
    {result : Option Token × Cursor} (h : next keywords place c rest = .ok result) :
    Found keywords place c rest result := by
  unfold next at h
  by_cases blank : Text.isBlank c = true
  · rw [if_pos blank] at h
    exact Except.ok.inj h ▸ .blank blank
  rw [if_neg blank] at h
  by_cases quote : c = '\'' ∨ c = '"'
  · rw [if_pos quote] at h
    exact .text quote h
  rw [if_neg quote] at h
  by_cases digit : c.isDigit = true
  · rw [if_pos digit] at h
    exact .number (.inl digit) h
  rw [if_neg digit] at h
  by_cases point : c = '.'
  · rw [if_pos point] at h
    by_cases digits : rest.head?.any Char.isDigit = true
    · rw [if_pos digits] at h
      exact .number (.inr ⟨point, digits⟩) h
    · rw [if_neg digits] at h
      exact Except.ok.inj h ▸ .point point (Bool.eq_false_iff.2 digits)
  rw [if_neg point] at h
  by_cases bracket : isBracketChar c = true
  · rw [if_pos bracket] at h
    exact Except.ok.inj h ▸ .bracket bracket
  rw [if_neg bracket] at h
  by_cases lone : isLoneOperator c = true
  · rw [if_pos lone] at h
    exact Except.ok.inj h ▸ .lone lone
  rw [if_neg lone] at h
  by_cases pair : isPairStart c = true
  · rw [if_pos pair] at h
    cases rest with
    | nil => exact Except.ok.inj h ▸ .half pair rfl
    | cons d after =>
      by_cases ends : isPairEnd d = true
      · exact Except.ok.inj ((if_pos ends).symm.trans h) ▸ .pair pair rfl ends
      · exact Except.ok.inj ((if_neg ends).symm.trans h) ▸ .half pair (by simpa using ends)
  rw [if_neg pair] at h
  by_cases word : Lexeme.isWordStart c = true
  · rw [if_pos word] at h
    exact Except.ok.inj h ▸ .word word
  · rw [if_neg word] at h
    cases h

/-- Every step takes at least one character. -/
theorem length_next_lt {keywords : List String} {place : Position} {c : Char}
    {rest : List Char} {token : Option Token} {cursor : Cursor}
    (h : next keywords place c rest = .ok (token, cursor)) :
    cursor.rest.length < (c :: rest).length := by
  cases found_of_next h with
  | blank _ | point _ _ | bracket _ | lone _ | half _ _ => exact Nat.lt_succ_self _
  | pair _ hrest _ =>
    rw [hrest]
    exact Nat.lt_succ_of_lt (Nat.lt_succ_self _)
  | text _ read =>
    unfold nextText at read
    split at read
    · rename_i heq
      cases read
      exact Nat.lt_succ_of_lt (Lexeme.textFrom_length_lt heq)
    · cases read
  | number _ read =>
    unfold nextNumber at read
    split at read
    · rename_i heq
      cases read
      exact Lexeme.number_length_lt heq
    · cases read
  | word opens =>
    simp only [List.dropWhile_cons, isWordPart_of_isWordStart opens, if_true]
    exact Nat.lt_succ_of_le (Lexeme.length_dropWhile_le _ _)

/-! ## All tokens -/

/-- Collects the tokens from a place on, after those found before it. -/
def scanFrom (keywords : List String) (found : Array Token) (cursor : Cursor) :
    Except LexError (List Token) :=
  match _hc : cursor.rest with
  | [] => .ok (found.push ⟨.endOfInput, cursor.position, ""⟩).toList
  | c :: rest =>
    match _hn : next keywords cursor.position c rest with
    | .error error => .error error
    | .ok (none, after) => scanFrom keywords found after
    | .ok (some token, after) => scanFrom keywords (found.push token) after
termination_by cursor.rest.length
decreasing_by
  all_goals rw [_hc]; exact length_next_lt _hn

/-- The tokens of a source text, the last of which marks its end. -/
def scan (keywords : List String) (source : String) : Except LexError (List Token) :=
  scanFrom keywords #[] ⟨source.toList, .start⟩

end ExprMachine.Token
