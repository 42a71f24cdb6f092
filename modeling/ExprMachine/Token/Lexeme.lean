/-
  ExprMachine.Token.Lexeme

  The shapes of single tokens, over lists of characters: words, numbers and text
  literals. A recogniser splits off the characters of one token and leaves the
  rest; the lemmas say that it loses none and takes at least one.
-/
import ExprMachine.Text.Alphabetic
import ExprMachine.Text.Blank
import ExprMachine.Text.Numeric
import ExprMachine.Token.Basic

namespace ExprMachine.Lexeme

/-! ## Words -/

/-- Whether a word may start with `c`. -/
def isWordStart (c : Char) : Bool :=
  Text.isAlphabetic c || c == '_' || c == '$'

/-- Whether a word may go on with `c`. -/
def isWordPart (c : Char) : Bool :=
  Text.isAlphabetic c || Text.isNumeric c || c == '_' || c == '$'

/-! ## Numbers -/

/-- Whether `c` may stand in a run of digits of the base: a digit or a separator. -/
def isDigitPart (base : Nat) (c : Char) : Bool :=
  c == '_' || Text.isDigitOf base c

/-- The base that a letter after a leading zero announces. -/
def announcedBase? (c : Char) : Option Nat :=
  if c = 'x' ∨ c = 'X' then some 16
  else if c = 'o' ∨ c = 'O' then some 8
  else if c = 'b' ∨ c = 'B' then some 2
  else none

/-- A point and the digits after it, if a digit follows the point. -/
def fraction (base : Nat) : List Char → List Char × List Char
  | '.' :: c :: rest =>
    if Text.isDigitOf base c then
      ('.' :: (c :: rest).takeWhile (isDigitPart base), (c :: rest).dropWhile (isDigitPart base))
    else ([], '.' :: c :: rest)
  | text => ([], text)

/-- Goes on after the start of a number: digits, a fraction, and then nothing that
    belongs to a word. -/
def numberFrom (base : Nat) (taken rest : List Char) : Except LexCause (List Char × List Char) :=
  let whole := rest.takeWhile (isDigitPart base)
  let (part, rest) := fraction base (rest.dropWhile (isDigitPart base))
  let stray := rest.takeWhile isWordPart
  if stray.isEmpty then .ok (taken ++ whole ++ part, rest)
  else .error (.malformedNumber (String.ofList (taken ++ whole ++ part ++ stray)))

/-- Splits a number off the front. The source starts with a digit, or with a point
    before a digit. A base that is announced needs a digit of its own. -/
def number (source : List Char) : Except LexCause (List Char × List Char) :=
  match source with
  | '.' :: rest => numberFrom 10 ['.'] rest
  | '0' :: mark :: rest =>
    match announcedBase? mark with
    | some base =>
      -- A separator alone does not count as a digit, and a point cannot come first.
      let run := rest.takeWhile (isDigitPart base)
      if run.any (Text.isDigitOf base) then numberFrom base ['0', mark] rest
      else .error (.malformedNumber (String.ofList ('0' :: mark :: run)))
    | none => numberFrom 10 ['0'] (mark :: rest)
  | c :: rest => numberFrom 10 [c] rest
  | [] => numberFrom 10 [] []

/-! ## Text literals -/

/-- The character that a backslash and `c` stand for between two such quotes. -/
def escape? (quote c : Char) : Option Char :=
  if c = 'a' then some '\x07'
  else if c = 'b' then some '\x08'
  else if c = 'f' then some '\x0c'
  else if c = 'n' then some '\n'
  else if c = 'r' then some '\r'
  else if c = 't' then some '\t'
  else if c = 'v' then some '\x0b'
  else if c = '\\' ∨ c = '\'' ∨ c = quote then some c
  else none

/-- Why a text literal has no end, and how many characters of it come before the
    fault. -/
structure TextFault where
  before : Nat
  cause : LexCause

/-- Reads a text literal after its opening quote, up to and with the closing one.
    A carriage return stands for a newline; a newline itself ends the line and so
    cannot stand in a literal. `content` holds the characters read so far, the last
    one first, and `length` how many characters of the source they took. -/
def textFrom (quote : Char) (content : List Char) (length : Nat) :
    List Char → Except TextFault (List Char × Nat × List Char)
  | [] => .error ⟨0, .unterminatedText⟩
  | c :: rest =>
    if c = '\n' then .error ⟨0, .unterminatedText⟩
    else if c = quote then .ok (content.reverse, length + 1, rest)
    else if c = '\\' then
      match rest with
      | [] => .error ⟨0, .unterminatedText⟩
      | d :: rest =>
        match escape? quote d with
        | none => .error ⟨length, .unknownEscape d⟩
        | some meant => textFrom quote (meant :: content) (length + 2) rest
    else textFrom quote ((if c = '\r' then '\n' else c) :: content) (length + 1) rest

/-- Splits a text literal off the front of a source that starts with the quote:
    the text that it denotes, its length in the source, and the rest. -/
def text (quote : Char) (rest : List Char) :
    Except TextFault (List Char × Nat × List Char) :=
  textFrom quote [] 1 rest

/-! ## What is left is shorter -/

theorem length_dropWhile_le {α : Type} (p : α → Bool) (l : List α) :
    (l.dropWhile p).length ≤ l.length :=
  (List.dropWhile_sublist p).length_le

theorem fraction_append (base : Nat) (text : List Char) :
    (fraction base text).1 ++ (fraction base text).2 = text := by
  unfold fraction
  split
  · split
    · simp [List.takeWhile_append_dropWhile]
    · rfl
  · rfl

theorem numberFrom_append {base : Nat} {taken rest lexeme left : List Char}
    (h : numberFrom base taken rest = .ok (lexeme, left)) :
    lexeme ++ left = taken ++ rest := by
  have hf := fraction_append base (rest.dropWhile (isDigitPart base))
  revert h
  simp only [numberFrom]
  split
  · intro h
    obtain ⟨rfl, rfl⟩ := Prod.mk.inj (Except.ok.inj h)
    simp only [List.append_assoc, hf, List.takeWhile_append_dropWhile]
  · intro h
    cases h

theorem number_append {source lexeme left : List Char}
    (h : number source = .ok (lexeme, left)) : lexeme ++ left = source := by
  revert h
  unfold number
  split
  · exact fun h => by simpa using numberFrom_append h
  · split
    · simp only
      split
      · exact fun h => by simpa using numberFrom_append h
      · exact fun h => nomatch h
    · exact fun h => by simpa using numberFrom_append h
  · exact fun h => by simpa using numberFrom_append h
  · exact fun h => by simpa using numberFrom_append h

theorem numberFrom_length_le {base : Nat} {c : Char} {taken rest lexeme left : List Char}
    (h : numberFrom base (c :: taken) rest = .ok (lexeme, left)) :
    left.length ≤ rest.length := by
  have hf := congrArg List.length (fraction_append base (rest.dropWhile (isDigitPart base)))
  have hd := length_dropWhile_le (isDigitPart base) rest
  revert h
  simp only [numberFrom]
  split
  · intro h
    obtain ⟨-, rfl⟩ := Prod.mk.inj (Except.ok.inj h)
    rw [List.length_append] at hf
    omega
  · intro h
    cases h

theorem number_length_lt {c : Char} {rest lexeme left : List Char}
    (h : number (c :: rest) = .ok (lexeme, left)) : left.length < (c :: rest).length := by
  revert h
  unfold number
  split
  · rename_i heq
    cases heq
    exact fun h => Nat.lt_succ_of_le (numberFrom_length_le h)
  · rename_i heq
    cases heq
    split
    · simp only
      split
      · exact fun h => by
          have := numberFrom_length_le h
          simp only [List.length_cons]
          omega
      · exact fun h => nomatch h
    · exact fun h => Nat.lt_succ_of_le (numberFrom_length_le h)
  · rename_i heq
    cases heq
    exact fun h => Nat.lt_succ_of_le (numberFrom_length_le h)
  · rename_i heq
    cases heq

theorem textFrom_length_lt {quote : Char} {source content value left : List Char}
    {length size : Nat} (h : textFrom quote content length source = .ok (value, size, left)) :
    left.length < source.length := by
  fun_induction textFrom quote content length source <;> grind

end ExprMachine.Lexeme
