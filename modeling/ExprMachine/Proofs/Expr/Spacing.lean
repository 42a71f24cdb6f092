/-
  ExprMachine.Proofs.Expr.Spacing

  The two spacings of a printed tree. The expanded text is the dense one with spaces put
  in; without these spaces every token still ends where it did, so that both texts are
  scanned to the same kinds and values in the same order.
-/
import ExprMachine.Proofs.Expr.Induction
import ExprMachine.Proofs.Expr.RoundTrip
import ExprMachine.Proofs.Token.Widening

namespace ExprMachine

-- ============================================================================
-- Spaces in a text
-- ============================================================================

/-- `Text.Spaced text wider`: the second text is the first one with spaces put in. -/
inductive Text.Spaced : List Char → List Char → Prop where
  | nil : Spaced [] []
  | keep {c text wider} (more : Spaced text wider) : Spaced (c :: text) (c :: wider)
  | space {text wider} (more : Spaced text wider) : Spaced text (' ' :: wider)

namespace Text.Spaced

theorem refl (text : List Char) : Spaced text text := by
  induction text with
  | nil => exact .nil
  | cons c text ih => exact .keep ih

theorem append {text more wider wider' : List Char} (first : Spaced text wider)
    (second : Spaced more wider') : Spaced (text ++ more) (wider ++ wider') := by
  induction first with
  | nil => exact second
  | keep _ ih => exact .keep ih
  | space _ ih => exact .space ih

/-- Text on both sides of what has spaces put in. -/
theorem between {text wider : List Char} (before after : List Char) (h : Spaced text wider) :
    Spaced (before ++ (text ++ after)) (before ++ (wider ++ after)) :=
  (refl before).append (h.append (refl after))

end Text.Spaced

-- ============================================================================
-- The two texts of a tree
-- ============================================================================

namespace Expr

open Text (Spaced)

variable {grammar : Grammar}

theorem spaced_parenthesise {text wider : String} (wrapped : Bool)
    (h : Spaced text.toList wider.toList) :
    Spaced (parenthesise wrapped text).toList (parenthesise wrapped wider).toList := by
  cases wrapped with
  | false => exact h
  | true => simpa [parenthesise] using h.between ['('] [')']

theorem spaced_sequence {exprs : List Expr}
    (h : ∀ expr ∈ exprs, Spaced (render grammar .dense expr).toList
      (render grammar .expanded expr).toList) :
    Spaced ((separator .dense).intercalate (renderAll grammar .dense exprs)).toList
      ((separator .expanded).intercalate (renderAll grammar .expanded exprs)).toList := by
  induction exprs with
  | nil => exact .nil
  | cons first exprs ih =>
    have hfirst := h first List.mem_cons_self
    have hothers := ih fun expr hexpr => h expr (List.mem_cons_of_mem _ hexpr)
    cases exprs with
    | nil => simpa [renderAll] using hfirst
    | cons second exprs =>
      have comma : Spaced (separator .dense).toList (separator .expanded).toList :=
        .keep (.space .nil)
      simpa [renderAll, String.intercalate_cons_cons] using hfirst.append (comma.append hothers)

theorem spaced_binary {left right left' right' : String} (symbol : String)
    (hleft : Spaced left.toList left'.toList) (hright : Spaced right.toList right'.toList) :
    Spaced (left ++ symbol ++ right).toList (left' ++ " " ++ symbol ++ " " ++ right').toList := by
  have spaced : Spaced symbol.toList (' ' :: (symbol.toList ++ [' '])) := by
    have after := (Spaced.refl symbol.toList).append (.space .nil)
    rw [List.append_nil] at after
    exact .space after
  simpa using hleft.append (spaced.append hright)

/-- The expanded text of a tree is its dense text with spaces put in. -/
theorem spaced_render (grammar : Grammar) (expr : Expr) :
    Spaced (render grammar .dense expr).toList (render grammar .expanded expr).toList := by
  induction expr with
  | unary symbol operand ih =>
    have inner := spaced_parenthesise
      (wrapsUnder grammar (unaryPriority grammar symbol) operand) ih
    rw [render, render]
    split
    · simpa using inner.between (symbol.toList ++ [' ']) []
    · simpa using inner.between symbol.toList []
  | binary symbol left right ihLeft ihRight =>
    have first := spaced_parenthesise (wrapsBeside grammar (binaryPriority grammar symbol)
      (groupsRight grammar symbol) left) ihLeft
    have second := spaced_parenthesise (wrapsBeside grammar (binaryPriority grammar symbol)
      (!groupsRight grammar symbol) right) ihRight
    by_cases word : isWordOperator symbol = true
    · simpa [render, word] using
        first.append (second.between (' ' :: (symbol.toList ++ [' '])) [])
    · simpa [render, word] using spaced_binary symbol first second
  | methodCall receiver name arguments ih ihArguments =>
    have owner := spaced_parenthesise (!takesParts receiver) ih
    have tail := (spaced_sequence ihArguments).between ('.' :: (name.toList ++ ['('])) [')']
    rw [render, render]
    simpa using owner.append tail
  | call name arguments ih =>
    rw [render, render]
    simpa using (spaced_sequence ih).between (name.toList ++ ['(']) [')']
  | property receiver name ih =>
    rw [render, render]
    simpa using (spaced_parenthesise (!takesParts receiver) ih).between [] ('.' :: name.toList)
  | list items ih =>
    rw [render, render]
    simpa using (spaced_sequence ih).between ['['] [']']
  | identifier | bool | nil | float | int | text =>
    rw [render, render]
    exact .refl _

/-- In either spacing the text of a tree is scanned to the symbols of the tree. -/
theorem symbols_of_render {tree : Expr}
    (h : Spellable grammar Token.standardKeywords tree) (spacing : Spacing) :
    ∃ tokens, Token.scan Token.standardKeywords (tree.render grammar spacing) = .ok tokens ∧
      Token.symbols tokens = spell grammar tree [] ++ [⟨.endOfInput, ""⟩] := by
  obtain ⟨tokens, scanned, spelt⟩ := Token.scan_of_scans (scans_render h spacing)
  exact ⟨tokens, scanned, by rw [Token.symbols_of_scan scanned, spelt]⟩

end Expr

-- ============================================================================
-- Whole sources
-- ============================================================================

namespace Source

/-- The tree of a source is printed in both spacings as texts that have tokens of the same
    kinds and values in the same order, although the dense text lacks some of the spaces of
    the other one. -/
theorem symbols_of_spacings {source : String} {tree : Expr} (parsed : expr source = .ok tree) :
    ∃ dense expanded,
      Token.scan Token.standardKeywords (tree.render .standard .dense) = .ok dense ∧
      Token.scan Token.standardKeywords (tree.render .standard .expanded) = .ok expanded ∧
      Token.symbols dense = Token.symbols expanded ∧
      Text.Spaced (tree.render .standard .dense).toList
        (tree.render .standard .expanded).toList := by
  have spellable := spellable_of_expr parsed
  obtain ⟨dense, scanned, symbols⟩ := Expr.symbols_of_render spellable .dense
  obtain ⟨expanded, scanned', symbols'⟩ := Expr.symbols_of_render spellable .expanded
  exact ⟨dense, expanded, scanned, scanned', symbols.trans symbols'.symm,
    Expr.spaced_render .standard tree⟩

/-- Two signs in a row and two operators that could be taken for a pair. -/
theorem symbols_of_spacings_signs : ∃ tree dense expanded,
    expr "f(a - -b, x.0.1 < !c)" = .ok tree ∧
      Token.scan Token.standardKeywords "f(a--b,x.0.1<!c)" = .ok dense ∧
      Token.scan Token.standardKeywords "f(a - -b, x.0.1 < !c)" = .ok expanded ∧
      Token.symbols dense = Token.symbols expanded := by
  let tree : Expr := .call "f"
    [.binary "-" (.identifier "a") (.unary "-" (.identifier "b")),
      .binary "<" (.property (.property (.identifier "x") "0") "1")
        (.unary "!" (.identifier "c"))]
  have parsed : expr "f(a - -b, x.0.1 < !c)" = .ok tree := by with_unfolding_all rfl
  have dense : tree.render .standard .dense = "f(a--b,x.0.1<!c)" := by with_unfolding_all rfl
  have expanded : tree.render .standard .expanded = "f(a - -b, x.0.1 < !c)" := by
    with_unfolding_all rfl
  obtain ⟨first, second, scanned, scanned', same, -⟩ := symbols_of_spacings parsed
  exact ⟨tree, first, second, parsed, dense ▸ scanned, expanded ▸ scanned', same⟩

end Source

end ExprMachine
