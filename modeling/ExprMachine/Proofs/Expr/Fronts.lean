/-
  ExprMachine.Proofs.Expr.Fronts

  What a phrase is read from: the symbols in front of those that are left, which are
  balanced. An expression is read from its symbols in one way.
-/
import ExprMachine.Proofs.Expr.Bracketing
import ExprMachine.Proofs.Expr.ParserComplete

namespace ExprMachine

open Reading

variable {grammar : Grammar} {n : Nat} {phrase : Phrase} {front symbols rest : List Symbol}

/-- The symbols of a tree are balanced. -/
theorem Reads.balanced_front (withoutPoint : grammar.WithoutPoint)
    (h : Reads grammar phrase (front ++ rest) rest) (tree : phrase.awaits = []) :
    Balanced front := by
  obtain ⟨front', hfront, written⟩ := h.exists_bracketed withoutPoint
  rw [outline_append] at hfront
  obtain rfl := List.append_cancel_right hfront
  apply balanced_outline_iff.1
  cases phrase with
  | expression | chain | operand | stem =>
    obtain ⟨paired, bracketed, -⟩ := written
    exact bracketed.balanced
  | sequence | items => cases tree

-- ============================================================================
-- One way to be read
-- ============================================================================

/-- From its symbols an expression that is not too deep is read in one way. -/
theorem Nests.unique {m least : Nat} {expr expr' : Expr} {rest' : List Symbol}
    (h : Nests grammar m (.expression least expr) symbols rest)
    (h' : Nests grammar n (.expression least expr') symbols rest')
    (shallow : expr'.depth ≤ maxDepth) : expr = expr' ∧ rest = rest' ∧ m = n := by
  obtain ⟨tokens, rfl⟩ : ∃ tokens, Token.symbols tokens = symbols :=
    ⟨symbols.map fun symbol => ⟨symbol.kind, .start, symbol.value⟩, by
      simp [Token.symbols, Token.symbol, Function.comp_def]⟩
  -- With as many levels as one of the two needs, the parser gives it and no other.
  have agree {m n : Nat} {expr expr' : Expr} {rest rest' : List Symbol}
      (h : Nests grammar m (.expression least expr) (Token.symbols tokens) rest)
      (h' : Nests grammar n (.expression least expr') (Token.symbols tokens) rest')
      (shallow : expr'.depth ≤ maxDepth) : expr = expr' ∧ rest = rest' ∧ m ≤ n := by
    rcases Parser.expression_complete ⟨grammar, .start⟩ n tokens h' with
      ⟨-, parsed, given, is⟩ | ⟨fits, -⟩
    · rcases Parser.expression_complete ⟨grammar, .start⟩ n tokens h with
        ⟨fits, other, given', is'⟩ | ⟨-, error, refused, -⟩
      · cases given.symm.trans given'
        exact ⟨is'.expr_eq.symm.trans is.expr_eq, is'.rest_eq.symm.trans is.rest_eq, fits.1⟩
      · cases given.symm.trans refused
    · exact absurd ⟨Nat.le_refl n, shallow⟩ fits
  obtain ⟨rfl, rfl, le⟩ := agree h h' shallow
  obtain ⟨-, -, ge⟩ := agree h' h shallow
  exact ⟨rfl, rfl, Nat.le_antisymm le ge⟩

end ExprMachine
