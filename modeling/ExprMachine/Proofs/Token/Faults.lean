/-
  ExprMachine.Proofs.Token.Faults

  Where the scanner fails and what it says there. The place of an error is one that the
  scanner has reached, and no message has a newline: all it quotes from the source are the
  characters of words and numbers, and single characters in an escaped form.
-/
import ExprMachine.Proofs.Source.Lines

namespace ExprMachine

-- ============================================================================
-- Quoted characters
-- ============================================================================

namespace OneLine

theorem digitChar {digit : Nat} (small : digit < 16) : OneLine [digit.digitChar] := by
  have all : ∀ digit < 16, OneLine [digit.digitChar] := by decide
  exact all digit small

theorem hexadecimal (number : Nat) : OneLine (Text.hexadecimal number).toList := by
  rw [Text.hexadecimal, String.toList_ofList]
  induction number using Nat.strongRecOn with
  | ind number ih =>
    rw [Nat.toDigits_eq_if (by decide)]
    split
    · rename_i small
      exact digitChar small
    · have smaller : number / 16 < number := Nat.div_lt_self (by omega) (by decide)
      exact append.2 ⟨ih _ smaller, digitChar (Nat.mod_lt _ (by decide))⟩

theorem codePointEscape (c : Char) : OneLine (Text.codePointEscape c).toList := by
  exact between (literal (by decide)) (hexadecimal _) (literal (by decide))

theorem singleton {c : Char} (h : c ≠ '\n') : OneLine c.toString.toList := by
  rw [Char.toString_eq_singleton, String.toList_singleton]
  exact fun hmem => h (List.mem_singleton.1 hmem).symm

theorem asciiEscape (c : Char) : OneLine (Text.asciiEscape c).toList := by
  unfold Text.asciiEscape
  by_cases newline : c = '\n'
  · subst newline
    decide
  rw [if_neg newline]
  repeat' split
  · exact literal (by decide)
  · exact literal (by decide)
  · exact literal (by decide)
  · exact literal (by decide)
  · exact literal (by decide)
  · exact singleton newline
  · exact codePointEscape c

theorem quotedChar (c : Char) : OneLine (Text.quotedChar c).toList := by
  unfold Text.quotedChar
  by_cases newline : c = '\n'
  · subst newline
    decide
  rw [if_neg newline]
  repeat' split
  · exact literal (by decide)
  · exact literal (by decide)
  · exact literal (by decide)
  · exact literal (by decide)
  · exact literal (by decide)
  · exact codePointEscape c
  · exact singleton newline

theorem quoted (text : String) : OneLine (Text.quoted text).toList := by
  have shown : ∀ (chars : List Char) (before : String), OneLine before.toList →
      OneLine (chars.foldl (fun shown c => shown ++ Text.quotedChar c) before).toList := by
    intro chars
    induction chars with
    | nil => exact fun before h => h
    | cons c chars ih =>
      intro before h
      refine ih _ ?_
      rw [String.toList_append]
      exact append.2 ⟨h, quotedChar c⟩
  rw [Text.quoted, String.foldl_eq_foldl_toList]
  exact between (literal (by decide)) (shown _ _ (literal (by decide))) (literal (by decide))

end OneLine

/-- A symbol that is no text literal has no newline. -/
theorem Lexes.oneLine {keywords : List String} {source left : List Char} {symbol : Symbol}
    (h : Lexes keywords source symbol left) (notText : symbol.kind ≠ .text) :
    OneLine symbol.value.toList := by
  have word (text : List Char) : OneLine (text.takeWhile Lexeme.isWordPart) :=
    .of_forall (List.all_eq_true.1 List.all_takeWhile) (by decide)
  have among {c : Char} {chars : List Char} (h : chars.contains c = true)
      (newline : '\n' ∉ chars) : '\n' ≠ c := by
    rintro rfl
    exact newline (List.contains_iff_mem.1 h)
  cases h with
  | text => exact absurd rfl notText
  | number opens read =>
    rw [String.toList_ofList]
    exact .of_forall (Lexeme.numberParts_of_number (opens.imp_right And.left) read) (by decide)
  | point => decide
  | bracket opens | lone opens | half opens =>
    rw [String.toList_ofList]
    exact fun h => among opens (by decide) (List.mem_singleton.1 h)
  | pair opens ends =>
    rw [String.toList_ofList]
    intro h
    rcases List.mem_cons.1 h with h | h
    · exact among opens (by decide) h
    · exact among ends (by decide) (List.mem_singleton.1 h)
  | keyword _ hword | word _ hword =>
    rw [String.toList_ofList, ← hword]
    exact word _

theorem Lexes.oneLine_description {keywords : List String} {source left : List Char}
    {token : Token} (h : Lexes keywords source token.symbol left) :
    OneLine token.description.toList := by
  unfold Token.description
  split
  · exact .literal (by decide)
  · exact .concat (.literal (by decide)) (.quoted _)
  · rename_i notText
    exact .between (.literal (by decide)) (h.oneLine notText) (.literal (by decide))

-- ============================================================================
-- Places of errors
-- ============================================================================

/-- A fault in a text literal is at its start, or where the characters so far end, which
    have no newline. -/
theorem Lexeme.place_of_textFrom {quote : Char} (printable : quote ≠ '\n')
    {content source : List Char} {length : Nat} {fault : TextFault}
    (h : textFrom quote content length source = .error fault) :
    fault.before = 0 ∨ ∃ body left, source = body ++ left ∧ OneLine body ∧
      fault.before = length + body.length := by
  fun_induction textFrom quote content length source with
  | case1 | case2 | case4 =>
    cases h
    exact .inl rfl
  | case3 => cases h
  | case5 content length d rest =>
    cases h
    exact .inr ⟨[], _, rfl, List.not_mem_nil, rfl⟩
  | case6 content length d rest meant escaped _ _ ih =>
    rcases ih h with start | ⟨body, left, rfl, oneLine, before⟩
    · exact .inl start
    · have newlineFree : d ≠ '\n' := by
        rintro rfl
        rw [escape?_newline printable] at escaped
        cases escaped
      refine .inr ⟨'\\' :: d :: body, left, rfl, ?_, ?_⟩
      · simp only [OneLine, List.mem_cons, not_or]
        exact ⟨by decide, newlineFree.symm, oneLine⟩
      · simp only [before, List.length_cons]
        omega
  | case7 content length c rest newline _ _ ih =>
    rcases ih h with start | ⟨body, left, rfl, oneLine, before⟩
    · exact .inl start
    · refine .inr ⟨c :: body, left, rfl, ?_, ?_⟩
      · simp only [OneLine, List.mem_cons, not_or]
        exact ⟨Ne.symm newline, oneLine⟩
      · simp only [before, List.length_cons]
        omega

namespace Token

variable {keywords : List String} {place : Position} {c : Char} {rest : List Char}
  {error : LexError}

/-- `Reaches place source error`: the error is at a place that the characters from a place
    on reach, and its message has no newline. -/
def Reaches (place : Position) (source : List Char) (error : LexError) : Prop :=
  (∃ taken left, source = taken ++ left ∧ error.position = place.advanceAll taken) ∧
    OneLine error.message.toList

theorem reaches_start {source : List Char} {cause : LexCause}
    (message : OneLine (LexError.message ⟨place, cause⟩).toList) :
    Reaches place source ⟨place, cause⟩ :=
  ⟨⟨[], source, rfl, rfl⟩, message⟩

theorem oneLine_of_textFrom {quote : Char} {content source : List Char} {length : Nat}
    {fault : Lexeme.TextFault} (h : Lexeme.textFrom quote content length source = .error fault) :
    OneLine (LexError.message ⟨place, fault.cause⟩).toList := by
  fun_induction Lexeme.textFrom quote content length source with
  | case1 | case2 | case4 =>
    cases h
    exact .literal (by decide)
  | case3 => cases h
  | case5 content length d =>
    cases h
    show OneLine ("unknown escape sequence '\\" ++ Text.asciiEscape d ++ "'").toList
    exact .between (.literal (by decide)) (.asciiEscape d) (.literal (by decide))
  | case6 _ _ _ _ _ _ _ _ ih => exact ih h
  | case7 _ _ _ _ _ _ _ ih => exact ih h

theorem reaches_of_nextText (opens : c = '\'' ∨ c = '"')
    (h : nextText place c rest = .error error) :
    Reaches place (c :: rest) error := by
  have printable : c ≠ '\n' := by rcases opens with rfl | rfl <;> decide
  unfold nextText at h
  split at h
  · cases h
  rename_i fault read
  cases h
  refine ⟨?_, oneLine_of_textFrom read⟩
  rcases Lexeme.place_of_textFrom printable read with start | ⟨body, left, rfl, oneLine, before⟩
  · exact ⟨[], c :: rest, rfl, by rw [start]; rfl⟩
  · have newlineFree : '\n' ∉ c :: body := by
      rw [List.mem_cons, not_or]
      exact ⟨printable.symm, oneLine⟩
    refine ⟨c :: body, left, rfl, ?_⟩
    rw [Position.advanceAll_of_not_mem newlineFree, List.length_cons, before, Nat.add_comm 1]

theorem reaches_of_nextNumber (opens : c.isDigit = true ∨ c = '.')
    (h : nextNumber place (c :: rest) = .error error) : Reaches place (c :: rest) error := by
  have parts := @Lexeme.number_parts c rest opens
  unfold nextNumber at h
  split at h
  · cases h
  rename_i cause read
  cases h
  rw [read] at parts
  obtain ⟨lexeme, rfl, parts⟩ := parts
  have named : OneLine (String.ofList lexeme).toList := by
    rw [String.toList_ofList]
    exact .of_forall parts (by decide)
  refine reaches_start ?_
  show OneLine ("malformed number literal '" ++ String.ofList lexeme ++ "'").toList
  exact .between (.literal (by decide)) named (.literal (by decide))

/-- How a step of the scanner fails: in a text literal, in a number, or at a character that
    starts no token. -/
inductive Refused (place : Position) (c : Char) (rest : List Char) : LexError → Prop where
  | text {error : LexError} (opens : c = '\'' ∨ c = '"')
      (failed : nextText place c rest = .error error) : Refused place c rest error
  | number {error : LexError} (opens : c.isDigit = true ∨ c = '.')
      (failed : nextNumber place (c :: rest) = .error error) : Refused place c rest error
  | character : Refused place c rest ⟨place, .unexpectedCharacter c⟩

theorem refused_of_next (h : next keywords place c rest = .error error) :
    Refused place c rest error := by
  unfold next at h
  split at h
  · cases h
  split at h
  · rename_i opens
    exact .text opens h
  split at h
  · rename_i digit
    exact .number (.inl digit) h
  split at h
  · rename_i point
    split at h
    · exact .number (.inr point) h
    · cases h
  split at h
  · cases h
  split at h
  · cases h
  split at h
  · split at h
    · split at h <;> cases h
    · cases h
  split at h
  · cases h
  · cases h
    exact .character

/-- Where the scanner finds nothing it says so at a place that it has reached. -/
theorem reaches_of_next (h : next keywords place c rest = .error error) :
    Reaches place (c :: rest) error := by
  cases refused_of_next h with
  | text opens failed => exact reaches_of_nextText opens failed
  | number opens failed => exact reaches_of_nextNumber opens failed
  | character =>
    refine reaches_start ?_
    show OneLine ("unexpected character '" ++ Text.asciiEscape c ++ "'").toList
    exact .between (.literal (by decide)) (.asciiEscape c) (.literal (by decide))

theorem reaches_of_scanFrom {found : Array Token} {cursor : Cursor}
    (h : scanFrom keywords found cursor = .error error) :
    Reaches cursor.position cursor.rest error := by
  -- What the rest of the source reaches the whole reaches, after the characters before it.
  have later {place : Position} {before rest : List Char}
      (h : Reaches (place.advanceAll before) rest error) :
      Reaches place (before ++ rest) error := by
    obtain ⟨⟨taken, left, rfl, position⟩, message⟩ := h
    refine ⟨⟨before ++ taken, left, by rw [List.append_assoc], ?_⟩, message⟩
    rw [position, Position.advanceAll_append]
  fun_induction scanFrom keywords found cursor with
  | case1 => cases h
  | case2 found cursor c rest hrest failed hnext =>
    cases h
    rw [hrest]
    exact reaches_of_next hnext
  | case3 found cursor c rest hrest after hnext ih =>
    obtain rfl := cursor_of_next_blank hnext
    rw [hrest]
    exact @later _ [c] _ (ih h)
  | case4 found cursor c rest hrest token after hnext ih =>
    obtain ⟨-, lexeme, hsource, position⟩ := place_of_next hnext
    rw [hrest, hsource]
    exact later (position ▸ ih h)

/-- The error of a source is at a place in it, and its message has no newline. -/
theorem holds_of_scan {source : String} (h : scan keywords source = .error error) :
    Source.Holds source error.position ∧ OneLine error.message.toList := by
  obtain ⟨⟨before, rest, hsource, position⟩, message⟩ := reaches_of_scanFrom h
  exact ⟨⟨before, rest, hsource, by rw [position, Position.advanceAll_start]⟩, message⟩

end Token

end ExprMachine
