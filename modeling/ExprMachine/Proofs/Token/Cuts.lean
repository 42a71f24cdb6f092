/-
  ExprMachine.Proofs.Token.Cuts

  Sources that are cut in two before a bracket: a bracket goes on with no token, so that
  what stands before it is scanned as it would be alone.
-/
import ExprMachine.Proofs.Token.Seams

namespace ExprMachine

variable {keywords : List String} {source left front back : List Char}
  {symbol : Symbol} {symbols first : List Symbol} {c : Char}

-- ============================================================================
-- One way to be scanned
-- ============================================================================

/-- Only one symbol stands at the front of a source. -/
theorem Lexes.unique {left' : List Char} {symbol' : Symbol} (h : Lexes keywords source symbol left)
    (other : Lexes keywords source symbol' left') : symbol = symbol' ∧ left = left' := by
  obtain ⟨c, rest, rfl, found⟩ := Token.next_of_lexes h
  obtain ⟨d, tail, same, found'⟩ := Token.next_of_lexes other
  obtain ⟨rfl, rfl⟩ := List.cons.inj same
  obtain ⟨token, cursor, next, rfl, rfl⟩ := found .start
  obtain ⟨token', cursor', next', rfl, rfl⟩ := found' .start
  cases next.symm.trans next'
  exact ⟨rfl, rfl⟩

/-- No symbol starts with a blank. -/
theorem Lexes.not_isBlank (h : Lexes keywords (c :: source) symbol left) :
    Text.isBlank c = false := by
  obtain ⟨d, rest, same, found⟩ := Token.next_of_lexes h
  obtain ⟨rfl, rfl⟩ := List.cons.inj same
  obtain ⟨token, cursor, next, -⟩ := found .start
  rw [← Bool.not_eq_true]
  intro blank
  simp [Token.next, blank] at next

namespace Scans

theorem of_blank (h : Scans keywords (c :: source) symbols) (blank : Text.isBlank c = true) :
    Scans keywords source symbols := by
  cases h with
  | blank _ scans => exact scans
  | token lexes =>
    rw [lexes.not_isBlank] at blank
    cases blank

theorem of_lexes (h : Scans keywords source symbols) (lexes : Lexes keywords source symbol left) :
    ∃ others, symbols = symbol :: others ∧ Scans keywords left others := by
  cases h with
  | nil =>
    obtain ⟨_, _, same, -⟩ := Token.next_of_lexes lexes
    cases same
  | blank blank =>
    rw [lexes.not_isBlank] at blank
    cases blank
  | token lexes' scans =>
    obtain ⟨rfl, rfl⟩ := lexes'.unique lexes
    exact ⟨_, rfl, scans⟩

/-- A bracket is a symbol, whatever follows it. -/
theorem of_bracket (h : Scans keywords (c :: source) symbols)
    (bracket : Token.isBracketChar c = true) :
    ∃ others, symbols = .bracket (String.ofList [c]) :: others ∧ Scans keywords source others :=
  h.of_lexes (.bracket bracket)

-- ============================================================================
-- Before a bracket
-- ============================================================================

/-- What is scanned alone is scanned alike before a character that breaks. -/
theorem split (h : Scans keywords (front ++ c :: back) symbols)
    (before : Scans keywords front first)
    (stops : Lexeme.breaks c = true) :
    ∃ others, symbols = first ++ others ∧ Scans keywords (c :: back) others := by
  induction before generalizing symbols with
  | nil => exact ⟨symbols, rfl, h⟩
  | blank blank _ ih => exact ih (h.of_blank blank)
  | @token front symbol left first lexes _ ih =>
    have resumes : Lexeme.Resumes left (left ++ c :: back) := by
      simpa using (@Lexeme.Resumes.here [] c back stops).append left
    obtain ⟨lexeme, rfl, again⟩ := lexes.resume resumes
    rw [List.append_assoc] at h
    obtain ⟨more, rfl, scans⟩ := h.of_lexes again
    obtain ⟨others, rfl, behind⟩ := ih scans
    exact ⟨others, rfl, behind⟩

theorem split_bracket (h : Scans keywords (front ++ c :: back) symbols)
    (before : Scans keywords front first) (bracket : Token.isBracketChar c = true) :
    ∃ others, symbols = first ++ .bracket (String.ofList [c]) :: others ∧
      Scans keywords back others := by
  obtain ⟨more, rfl, scans⟩ := h.split before (Lexeme.breaks_bracket bracket)
  obtain ⟨others, rfl, behind⟩ := scans.of_bracket bracket
  exact ⟨others, rfl, behind⟩

/-- A bracket with the same symbols before it stands at the same place. -/
theorem eq_of_bracket {front' back' : List Char} (same : front ++ c :: back = front' ++ c :: back')
    (h : Scans keywords front first) (h' : Scans keywords front' first)
    (bracket : Token.isBracketChar c = true) : front = front' ∧ back = back' := by
  have apart {front more : List Char} (h : Scans keywords front first) :
      ¬ Scans keywords (front ++ c :: more) first := by
    intro longer
    obtain ⟨others, absurd, -⟩ := longer.split_bracket h bracket
    simp at absurd
  rcases List.append_eq_append_iff.1 same with ⟨between, hfront, hback⟩ | ⟨between, hfront, hback⟩
  · cases between with
    | nil => exact ⟨by simpa using hfront.symm, (List.cons.inj hback).2⟩
    | cons d between =>
      obtain ⟨rfl, -⟩ := List.cons.inj hback
      rw [hfront] at h'
      exact absurd h' (apart h)
  · cases between with
    | nil => exact ⟨by simpa using hfront, (List.cons.inj hback).2.symm⟩
    | cons d between =>
      obtain ⟨rfl, -⟩ := List.cons.inj hback
      rw [hfront] at h
      exact absurd h (apart h')

end Scans

end ExprMachine
