/-
  ExprMachine.Proofs.Source.Lines

  Where the lines of a text are. A place that the front of a text reaches lies in the text:
  its line is one of the lines, and its offset counts the characters of that line which
  come before it.
-/
import Mathlib.Data.List.DropRight
import ExprMachine.Proofs.Token.Lossless
import ExprMachine.Source.Lines

namespace ExprMachine

-- ============================================================================
-- Texts on one line
-- ============================================================================

/-- Whether a text has no newline. -/
def OneLine (text : List Char) : Prop := '\n' ∉ text

namespace OneLine

instance (text : List Char) : Decidable (OneLine text) :=
  inferInstanceAs (Decidable (¬ '\n' ∈ text))

theorem append {text other : List Char} :
    OneLine (text ++ other) ↔ OneLine text ∧ OneLine other := by
  rw [OneLine, List.mem_append, not_or]
  rfl

theorem concat {front back : String} (hfront : OneLine front.toList)
    (hback : OneLine back.toList) : OneLine (front ++ back).toList := by
  rw [String.toList_append]
  exact append.2 ⟨hfront, hback⟩

theorem between {front text back : String} (hfront : OneLine front.toList)
    (htext : OneLine text.toList) (hback : OneLine back.toList) :
    OneLine (front ++ text ++ back).toList :=
  concat (concat hfront htext) hback

/-- The characters of a literal can be looked at without decoding it. -/
theorem literal {chars : List Char} (h : OneLine chars) :
    OneLine (String.ofList chars).toList := by
  rwa [String.toList_ofList]

theorem of_forall {p : Char → Bool} {text : List Char} (h : ∀ c ∈ text, p c = true)
    (newline : p '\n' = false) : OneLine text := by
  intro hmem
  rw [h _ hmem] at newline
  cases newline

theorem toString_nat (number : Nat) : OneLine (toString number).toList := by
  refine @of_forall Char.isDigit _ (fun c hc => ?_) rfl
  rw [Nat.toString_eq_repr, Nat.toList_repr] at hc
  exact Nat.isDigit_of_mem_toDigits (by decide) (by decide) hc

end OneLine

namespace Source

-- ============================================================================
-- Counting lines
-- ============================================================================

theorem length_splitOn (separator : Char) (text : List Char) :
    (text.splitOn separator).length = text.count separator + 1 := by
  induction text with
  | nil => rfl
  | cons c text ih =>
    rw [List.splitOn_cons_eq_if_modifyHead, List.count_cons]
    split
    · rw [List.length_cons, ih]
    · rw [List.length_modifyHead, ih, Nat.add_zero]

theorem lineCount_eq (source : String) : lineCount source = source.toList.count '\n' + 1 :=
  length_splitOn '\n' source.toList

theorem oneLine_of_mem_splitOn {text line : List Char} (h : line ∈ text.splitOn '\n') :
    OneLine line := by
  induction text generalizing line with
  | nil =>
    obtain rfl : line = [] := by simpa using h
    exact List.not_mem_nil
  | cons c text ih =>
    rw [List.splitOn_cons_eq_if_modifyHead] at h
    split at h
    · rcases List.mem_cons.1 h with rfl | h
      · exact List.not_mem_nil
      · exact ih h
    · rename_i newline
      cases hlines : text.splitOn '\n' with
      | nil => exact absurd hlines (List.splitOn_ne_nil _ _)
      | cons first others =>
        rw [hlines] at h ih
        rcases List.mem_cons.1 h with rfl | h
        · have hc : '\n' ≠ c := fun hc => newline (beq_iff_eq.2 hc.symm)
          rw [OneLine, List.mem_cons, not_or]
          exact ⟨hc, ih List.mem_cons_self⟩
        · exact ih (List.mem_cons_of_mem _ h)

theorem mem_of_mem_splitOn {separator c : Char} {text line : List Char}
    (h : line ∈ text.splitOn separator) (hc : c ∈ line) : c ∈ text := by
  induction text generalizing line with
  | nil =>
    obtain rfl : line = [] := by simpa using h
    exact hc
  | cons first text ih =>
    rw [List.splitOn_cons_eq_if_modifyHead] at h
    split at h
    · rcases List.mem_cons.1 h with rfl | h
      · cases hc
      · exact List.mem_cons_of_mem _ (ih h hc)
    · cases hlines : text.splitOn separator with
      | nil => exact absurd hlines (List.splitOn_ne_nil _ _)
      | cons line others =>
        rw [hlines] at h ih
        rcases List.mem_cons.1 h with rfl | h
        · rcases List.mem_cons.1 hc with rfl | hc
          · exact List.mem_cons_self
          · exact List.mem_cons_of_mem _ (ih List.mem_cons_self hc)
        · exact List.mem_cons_of_mem _ (ih (List.mem_cons_of_mem _ h) hc)

-- ============================================================================
-- The line of a place
-- ============================================================================

theorem splitOn_head? (text : List Char) :
    (text.splitOn '\n')[0]? = some (text.takeWhile (· ≠ '\n')) := by
  induction text with
  | nil => rfl
  | cons c text ih =>
    rw [List.splitOn_cons_eq_if_modifyHead, List.takeWhile_cons]
    by_cases newline : c = '\n'
    · simp [newline]
    · have goesOn : (c == '\n') = false := beq_false_of_ne newline
      simp [newline, goesOn, ih, List.getElem?_modifyHead]

/-- The line that some front of a text ends in goes on to the next newline. -/
theorem splitOn_getElem? (before rest : List Char) :
    ((before ++ rest).splitOn '\n')[before.count '\n']? =
      some (before.rtakeWhile (· ≠ '\n') ++ rest.takeWhile (· ≠ '\n')) := by
  induction before using List.reverseRecOn generalizing rest with
  | nil => exact splitOn_head? rest
  | append_singleton before c ih =>
    rw [List.append_assoc, List.singleton_append, List.rtakeWhile_concat, List.count_append]
    by_cases newline : c = '\n'
    · subst newline
      rw [List.splitOn_append_cons_self, List.count_singleton_self, ← length_splitOn,
        List.getElem?_append_right (Nat.le_refl _), Nat.sub_self, splitOn_head?,
        if_neg (by decide), List.nil_append]
    · have goesOn : decide (c ≠ '\n') = true := decide_eq_true newline
      have uncounted : List.count '\n' [c] = 0 :=
        List.count_eq_zero.2 fun h => newline (List.mem_singleton.1 h).symm
      rw [uncounted, Nat.add_zero, ih, List.takeWhile_cons, if_pos goesOn, if_pos goesOn,
        List.append_assoc, List.singleton_append]

/-- `Holds source place`: the place is one that some front of the source reaches. -/
def Holds (source : String) (place : Position) : Prop :=
  ∃ before rest, source.toList = before ++ rest ∧ place = .after before

/-- A place in a source lies in a line of the source, not behind its end. -/
theorem Holds.exists_line {source : String} {place : Position} (h : Holds source place) :
    1 ≤ place.line ∧ place.line ≤ lineCount source ∧
      ∃ line, (lines source)[place.line - 1]? = some line ∧ place.offset ≤ line.length := by
  obtain ⟨before, rest, hsource, rfl⟩ := h
  have counted : lineCount source = before.count '\n' + rest.count '\n' + 1 := by
    rw [lineCount_eq, hsource, List.count_append]
  have line : (lines source)[1 + before.count '\n' - 1]? =
      some (before.rtakeWhile (· ≠ '\n') ++ rest.takeWhile (· ≠ '\n')) := by
    rw [Nat.add_sub_cancel_left, lines, hsource]
    exact splitOn_getElem? before rest
  have reached : (before.rtakeWhile (· ≠ '\n')).length ≤
      (before.rtakeWhile (· ≠ '\n') ++ rest.takeWhile (· ≠ '\n')).length := by
    rw [List.length_append]
    omega
  have last : 1 + before.count '\n' ≤ lineCount source := by omega
  exact ⟨Nat.le_add_right _ _, last, _, line, reached⟩

end Source

end ExprMachine
