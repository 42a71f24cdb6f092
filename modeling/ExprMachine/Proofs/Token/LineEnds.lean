/-
  ExprMachine.Proofs.Token.LineEnds

  A text literal that is open at the end of a source is open at the end of the line when
  the source goes on in a next line, and the scanner fails with the same error. The one
  exception is an escape that the end of the line breaks off: there the newline counts as
  the character after the backslash, and as one that stands for nothing.
-/
import ExprMachine.Proofs.Token.Faults

namespace ExprMachine

-- ============================================================================
-- Escapes that are broken off
-- ============================================================================

namespace Lexeme

/-- Whether a text ends in a backslash that is not itself escaped: in an odd number of
    backslashes. -/
def endsInEscape (text : List Char) : Bool :=
  (text.reverse.takeWhile (· = '\\')).length % 2 == 1

/-- Backslashes before another character have no part in it. -/
theorem endsInEscape_append {c : Char} (h : c ≠ '\\') (before text : List Char) :
    endsInEscape (before ++ c :: text) = endsInEscape text := by
  have stops : List.takeWhile (· = '\\') (c :: before.reverse) = [] := by
    rw [List.takeWhile_cons_of_neg (by simpa using h)]
  have front : (before ++ c :: text).reverse = text.reverse ++ c :: before.reverse := by simp
  unfold endsInEscape
  rw [front, List.takeWhile_append, stops, List.append_nil]
  split
  · rename_i all
    rw [(List.takeWhile_sublist _).eq_of_length all]
  · rfl

theorem endsInEscape_cons {c : Char} (h : c ≠ '\\') (text : List Char) :
    endsInEscape (c :: text) = endsInEscape text :=
  endsInEscape_append h [] text

/-- A whole escape has no part in it either. -/
theorem endsInEscape_escape (c : Char) (text : List Char) :
    endsInEscape ('\\' :: c :: text) = endsInEscape text := by
  by_cases plain : c = '\\'
  · subst plain
    have pair : ('\\' :: '\\' :: text).reverse = text.reverse ++ ['\\', '\\'] := by simp
    unfold endsInEscape
    rw [pair, List.takeWhile_append]
    split
    · rename_i all
      rw [List.length_append, all]
      exact congrArg (· == 1) (Nat.add_mod_right _ 2)
    · rfl
  · exact endsInEscape_append plain ['\\'] text

/-- Whatever lines follow, an open literal fails at the end of its own. -/
theorem textFrom_newline {quote : Char} (printable : quote ≠ '\n') {content source : List Char}
    {length : Nat} {fault : TextFault} (h : textFrom quote content length source = .error fault)
    (cause : fault.cause = .unterminatedText) (oneLine : OneLine source) (more : List Char) :
    textFrom quote content length (source ++ '\n' :: more) = .error
      (if endsInEscape source then ⟨length + source.length - 1, .unknownEscape '\n'⟩
        else fault) := by
  fun_induction textFrom quote content length source with
  | case1 content length =>
    cases h
    rw [List.nil_append, textFrom.eq_def]
    rfl
  | case2 => exact absurd List.mem_cons_self oneLine
  | case3 => cases h
  | case4 content length newline quoted =>
    have unknown := escape?_newline printable
    rw [List.cons_append, List.nil_append, textFrom.eq_def]
    simp only [newline, quoted, if_false, if_true, unknown]
    rfl
  | case5 =>
    cases h
    cases cause
  | case6 content length d rest meant escaped newline quoted ih =>
    have restLine : OneLine rest := ((@OneLine.append ['\\', d] rest).1 oneLine).2
    rw [List.cons_append, List.cons_append, textFrom.eq_def]
    simp only [newline, quoted, if_false, if_true, escaped, ih h restLine, endsInEscape_escape,
      List.length_cons]
    congr 4
    omega
  | case7 content length c rest newline quoted plain ih =>
    have restLine : OneLine rest := ((@OneLine.append [c] rest).1 oneLine).2
    rw [List.cons_append, textFrom.eq_def]
    simp only [newline, quoted, plain, if_false, ih h restLine, endsInEscape_cons plain,
      List.length_cons]
    congr 4
    omega

end Lexeme

-- ============================================================================
-- Sources that go on in a next line
-- ============================================================================

namespace Token

open Lexeme (endsInEscape)

variable {keywords : List String} {place : Position} {c : Char} {rest : List Char}
  {error : LexError}

theorem scanFrom_error {found : Array Token} {cursor : Cursor} (hrest : cursor.rest = c :: rest)
    (hnext : next keywords cursor.position c rest = .error error) :
    scanFrom keywords found cursor = .error error := by
  rw [scanFrom_cons hrest, hnext, goOn]

/-- Only text literals are left open. -/
theorem text_of_next (h : next keywords place c rest = .error error)
    (cause : error.cause = .unterminatedText) :
    (c = '\'' ∨ c = '"') ∧ nextText place c rest = .error error := by
  cases refused_of_next h with
  | text opens failed => exact ⟨opens, failed⟩
  | number opens failed =>
    have parts := @Lexeme.number_parts c rest opens
    unfold nextNumber at failed
    split at failed
    · cases failed
    · rename_i read
      rw [read] at parts
      obtain ⟨lexeme, rfl, -⟩ := parts
      cases failed
      cases cause
  | character => cases cause

theorem nextText_newline (opens : c = '\'' ∨ c = '"') (h : nextText place c rest = .error error)
    (cause : error.cause = .unterminatedText) (oneLine : OneLine rest) (more : List Char) :
    nextText place c (rest ++ '\n' :: more) = .error
      (if endsInEscape rest then
        ⟨⟨place.line, place.offset + rest.length⟩, .unknownEscape '\n'⟩
      else error) := by
  have printable : c ≠ '\n' := by rcases opens with rfl | rfl <;> decide
  unfold nextText at h
  split at h
  · cases h
  rename_i fault read
  cases h
  have reread := Lexeme.textFrom_newline printable read cause oneLine more
  rw [Nat.add_sub_cancel_left] at reread
  rw [nextText, Lexeme.text, reread]
  cases endsInEscape rest <;> rfl

/-- An open literal stands behind the tokens before it. -/
theorem exists_open_of_scanFrom {found : Array Token} {cursor : Cursor}
    (h : scanFrom keywords found cursor = .error error) (cause : error.cause = .unterminatedText) :
    ∃ before tokens quote literal, cursor.rest = before ++ quote :: literal ∧
      (quote = '\'' ∨ quote = '"') ∧
        Tokenizes keywords cursor.position cursor.rest tokens (quote :: literal) ∧
          nextText (cursor.position.advanceAll before) quote literal = .error error := by
  fun_induction scanFrom keywords found cursor with
  | case1 => cases h
  | case2 found cursor c rest hrest failed hnext =>
    cases h
    obtain ⟨opens, failed⟩ := text_of_next hnext cause
    exact ⟨[], [], c, rest, hrest, opens, hrest ▸ .done, failed⟩
  | case3 found cursor c rest hrest after hnext ih =>
    obtain ⟨before, tokens, quote, literal, hafter, opens, tokenizes, failed⟩ := ih h
    rw [cursor_of_next_blank hnext] at hafter tokenizes failed
    rw [hrest]
    exact ⟨c :: before, tokens, quote, literal, congrArg _ hafter, opens,
      .blank (blank_of_next hnext).1 tokenizes, failed⟩
  | case4 found cursor c rest hrest token after hnext ih =>
    obtain ⟨before, tokens, quote, literal, hafter, opens, tokenizes, failed⟩ := ih h
    have lexes := lexes_of_next hnext
    obtain ⟨starts, lexeme, hsource, hplace⟩ := place_of_next hnext
    rw [hsource] at lexes
    rw [hplace] at tokenizes
    rw [hplace, ← Position.advanceAll_append] at failed
    rw [hrest, hsource]
    exact ⟨lexeme ++ before, token :: tokens, quote, literal, by rw [List.append_assoc, hafter],
      opens, .token starts lexes tokenizes, failed⟩

/-- Behind some tokens the scanner goes on with what is left. -/
theorem scanFrom_behind {source : List Char} {tokens : List Token}
    (h : Tokenizes keywords place source tokens rest) (found : Array Token) :
    ∃ taken others, source = taken ++ rest ∧ scanFrom keywords found ⟨source, place⟩ =
      scanFrom keywords others ⟨rest, place.advanceAll taken⟩ := by
  induction h generalizing found with
  | done => exact ⟨[], found, rfl, rfl⟩
  | @blank place c source tokens rest isBlank _ ih =>
    obtain ⟨taken, others, rfl, same⟩ := ih found
    have moved : next keywords place c (taken ++ rest) =
        .ok (none, ⟨taken ++ rest, place.advance c⟩) := by
      simp [next, isBlank]
    exact ⟨c :: taken, others, rfl, (scanFrom_blank rfl moved).trans same⟩
  | @token place token lexeme between tokens rest starts lexes _ ih =>
    obtain rfl := starts
    obtain ⟨c, tail, hsource, moved⟩ := next_of_lexeme lexes
    obtain ⟨taken, others, rfl, same⟩ := ih (found.push token)
    refine ⟨lexeme ++ taken, others, (List.append_assoc ..).symm, ?_⟩
    rw [Position.advanceAll_append, hsource, scanFrom_token rfl moved, same]

/-- When a line that leaves a text literal open is followed by others, the scanner fails
    at the same place for the same cause, unless the line ends inside an escape: then it
    fails at the backslash, since a newline stands for nothing behind one. -/
theorem scan_of_open_line {line : String} (oneLine : OneLine line.toList)
    (h : scan keywords line = .error error) (code : error.code = "RB-L001") (more : String) :
    scan keywords (line ++ "\n" ++ more) = .error
      (if endsInEscape line.toList then ⟨⟨1, line.length - 1⟩, .unknownEscape '\n'⟩
        else error) := by
  have cause : error.cause = .unterminatedText := by
    unfold LexError.code at code
    split at code
    · assumption
    all_goals exact absurd code (by decide)
  obtain ⟨before, tokens, quote, literal, hline, opens, tokenizes, failed⟩ :=
    exists_open_of_scanFrom h cause
  have printable : quote ≠ '\n' := by rcases opens with rfl | rfl <;> decide
  have plain : quote ≠ '\\' := by rcases opens with rfl | rfl <;> decide
  have stops : Lexeme.breaks quote = true := by rcases opens with rfl | rfl <;> decide
  dsimp only at hline tokenizes failed
  rw [hline] at oneLine tokenizes
  obtain ⟨beforeLine, literalLine⟩ := OneLine.append.1 oneLine
  have restLine : OneLine literal := ((@OneLine.append [quote] literal).1 literalLine).2
  -- The tokens before the literal are the same when the source goes on in it.
  obtain ⟨taken, htaken, again⟩ := tokenizes.resume stops (literal ++ '\n' :: more.toList)
  obtain rfl := List.append_cancel_right htaken
  obtain ⟨taken, others, htaken, same⟩ := scanFrom_behind again #[]
  obtain rfl := List.append_cancel_right htaken
  have source : (line ++ "\n" ++ more).toList =
      before ++ quote :: (literal ++ '\n' :: more.toList) := by
    have newline : "\n".toList = ['\n'] := by decide
    rw [String.toList_append, String.toList_append, newline, hline]
    simp
  have length : line.length = before.length + literal.length + 1 := by
    rw [← String.length_toList, hline, List.length_append, List.length_cons]
    omega
  have reached : Position.start.advanceAll before = ⟨1, before.length⟩ := by
    rw [Position.advanceAll_of_not_mem beforeLine, Position.start, Nat.zero_add]
  rw [reached] at failed same
  rw [scan, source, same]
  refine scanFrom_error rfl ?_
  rw [next_text opens, nextText_newline opens failed cause restLine, hline, length,
    Lexeme.endsInEscape_append plain, Nat.add_sub_cancel]

/-- A line that ends in an escaped backslash, behind a keyword. -/
theorem scan_of_open_line_backslashes :
    scan ["if"] "if 'a\\\\" = .error ⟨⟨1, 3⟩, .unterminatedText⟩ ∧
      scan ["if"] "if 'a\\\\\nb'" = .error ⟨⟨1, 3⟩, .unterminatedText⟩ := by
  have literal : next ["if"] ⟨1, 3⟩ '\'' ['a', '\\', '\\'] =
      .error ⟨⟨1, 3⟩, .unterminatedText⟩ := by
    have read : Lexeme.text '\'' ['a', '\\', '\\'] = .error ⟨0, .unterminatedText⟩ := rfl
    rw [next_text (.inl rfl), nextText, read]
    rfl
  have failed : scan ["if"] "if 'a\\\\" = .error ⟨⟨1, 3⟩, .unterminatedText⟩ := by
    rw [scan, scanFrom_token rfl rfl, scanFrom_blank rfl rfl, scanFrom_error rfl literal]
  exact ⟨failed, scan_of_open_line (by decide) failed rfl "b'"⟩

/-- A single backslash takes the end of the source and the end of the line differently. -/
theorem scan_open_escape :
    ∃ error error', scan standardKeywords "'\\" = .error error ∧ error.code = "RB-L001" ∧
      scan standardKeywords "'\\\n'" = .error error' ∧ error'.code = "RB-L002" ∧
        error'.position ≠ error.position := by
  have ends : next standardKeywords .start '\'' ['\\'] =
      .error ⟨⟨1, 0⟩, .unterminatedText⟩ := by
    have read : Lexeme.text '\'' ['\\'] = .error ⟨0, .unterminatedText⟩ := rfl
    rw [next_text (.inl rfl), nextText, read]
    rfl
  have goesOn : next standardKeywords .start '\'' ['\\', '\n', '\''] =
      .error ⟨⟨1, 1⟩, .unknownEscape '\n'⟩ := by
    have read : Lexeme.text '\'' ['\\', '\n', '\''] = .error ⟨1, .unknownEscape '\n'⟩ := rfl
    rw [next_text (.inl rfl), nextText, read]
    rfl
  exact ⟨_, _, scanFrom_error rfl ends, rfl, scanFrom_error rfl goesOn, rfl, by decide⟩

end Token

end ExprMachine
