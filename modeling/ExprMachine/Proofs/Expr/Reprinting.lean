/-
  ExprMachine.Proofs.Expr.Reprinting

  Trees of names and infix operators, printed and read under one table of operators. The
  parentheses that the printer leaves out are those that the reader does without,
  whichever priorities the table has and to which side each of them groups.
-/
import ExprMachine.Proofs.Expr.Climbing

namespace ExprMachine

open ExprMachine.Expr

-- ============================================================================
-- Symbols that the scanner finds
-- ============================================================================

/-- Whether the scanner finds the symbol in some source. -/
def Symbol.Emitted (symbol : Symbol) : Prop :=
  ∃ source tokens, Token.scan Token.standardKeywords source = .ok tokens ∧
    symbol ∈ Token.symbols tokens

theorem Symbol.Emitted.lexed {symbol : Symbol} (h : symbol.Emitted)
    (notEnd : symbol.kind ≠ .endOfInput) : symbol.Lexed Token.standardKeywords := by
  obtain ⟨source, tokens, scanned, hmem⟩ := h
  obtain ⟨found, mark, rfl, scans, hmark, -⟩ := Token.scans_of_scanFrom scanned
  have within : symbol ∈ Token.symbols found := by
    rw [Token.symbols, List.map_append, List.mem_append, List.map_singleton,
      List.mem_singleton] at hmem
    rcases hmem with hmem | rfl
    · simpa [Token.symbols] using hmem
    · exact absurd hmark notEnd
  exact scans.lexed symbol within

theorem isOperator_of_lexed {symbol : String}
    (h : (Symbol.operator symbol).Lexed Token.standardKeywords) (notPoint : symbol ≠ ".") :
    IsOperator Token.standardKeywords symbol := by
  obtain ⟨source, rest, h⟩ := h
  generalize hsymbol : Symbol.operator symbol = spelt at h
  cases h with
  | point =>
    cases hsymbol
    exact absurd rfl notPoint
  | lone opens =>
    cases hsymbol
    exact .lone opens
  | pair opens ends =>
    cases hsymbol
    exact .pair opens ends
  | half opens =>
    cases hsymbol
    exact .half opens
  | keyword _ _ _ known =>
    cases hsymbol
    exact Grammar.isOperator_of_keyword (List.contains_iff_mem.1 known)
  | _ => cases hsymbol

-- ============================================================================
-- Trees of names and infix operators
-- ============================================================================

namespace Expr

/-- Whether a tree has only names and infix operators of the table, all of which the
    scanner finds. The point is not one of these operators. -/
inductive OfOperators (grammar : Grammar) : Expr → Prop where
  | identifier {name} (emitted : (Symbol.word name).Emitted)
      (plain : Symbol.literal? (.word name) = none) : OfOperators grammar (.identifier name)
  | binary {symbol left right} (emitted : (Symbol.operator symbol).Emitted)
      (notPoint : symbol ≠ ".") (known : (grammar.binary? symbol).isSome = true)
      (first : OfOperators grammar left) (second : OfOperators grammar right) :
      OfOperators grammar (.binary symbol left right)

namespace OfOperators

variable {grammar : Grammar} {tree : Expr}

theorem spellable (h : OfOperators grammar tree) :
    Spellable grammar Token.standardKeywords tree := by
  induction h with
  | identifier emitted plain =>
    have word := isWord_of_lexed (emitted.lexed (by simp))
    exact .identifier ⟨word, plain⟩
  | binary emitted notPoint known _ _ ihLeft ihRight =>
    have shape := isOperator_of_lexed (emitted.lexed (by simp)) notPoint
    exact .binary known shape ihLeft ihRight

/-- Without prefix operators nothing goes on over an infix operator. -/
theorem swallows_eq_false {priority : Nat} (h : OfOperators grammar tree) :
    swallows grammar priority tree = false := by
  induction h with
  | identifier => rfl
  | binary _ _ _ _ _ _ ihRight => rw [swallows, ihRight, Bool.and_false]

theorem faithful_eq_true (h : OfOperators grammar tree) : faithful grammar tree = true := by
  induction h with
  | identifier => rfl
  | binary _ _ _ first _ ihLeft ihRight =>
    rw [faithful, first.swallows_eq_false, ihLeft, ihRight]
    simp

end OfOperators

/-- A tree of names and infix operators, printed under any table of operators and read
    under the same table, is the same tree, or it nests too deeply to be read. -/
theorem parse_render {grammar : Grammar} {tree : Expr} (consistent : grammar.Consistent)
    (h : OfOperators grammar tree) (spacing : Spacing) :
    ∃ tokens, Token.scan Token.standardKeywords (tree.render grammar spacing) = .ok tokens ∧
      (parse grammar tokens = .ok tree ∨
        ∃ error, parse grammar tokens = .error error ∧ error.code = "RB-P007") := by
  obtain ⟨tokens, reread, scanned, same, parsed⟩ := parse_of_render consistent h.spellable spacing
  refine ⟨tokens, scanned, ?_⟩
  obtain rfl := same.2 h.faithful_eq_true
  rcases parsed with parsed | ⟨error, failed, cause⟩
  · exact .inl parsed
  · exact .inr ⟨error, failed, by rw [ParseError.code, cause]⟩

/-- A power of powers and of a difference: the parentheses on the left of an operator that
    groups to the right are kept. -/
theorem parse_render_power : ∃ grammar tree tokens, grammar.binary? "^" = some ⟨7, .right⟩ ∧
    tree.render grammar .dense = "(a^b)^a^(a-b)" ∧
      Token.scan Token.standardKeywords (tree.render grammar .dense) = .ok tokens ∧
        parse grammar tokens = .ok tree := by
  let grammar := (Grammar.empty.withBinary "-" 4 .left).withBinary "^" 7 .right
  have consistent : grammar.Consistent := Grammar.consistent_of_table (by decide)
  have scanned : ∃ tokens, Token.scan Token.standardKeywords "a-b^" = .ok tokens ∧
      Token.symbols tokens =
        [.word "a", .operator "-", .word "b", .operator "^", ⟨.endOfInput, ""⟩] :=
    ⟨_, by with_unfolding_all rfl, by with_unfolding_all rfl⟩
  obtain ⟨found, scanned, symbols⟩ := scanned
  have emitted (symbol : Symbol) (h : symbol ∈ Token.symbols found) : symbol.Emitted :=
    ⟨_, _, scanned, h⟩
  rw [symbols] at emitted
  have a : OfOperators grammar (.identifier "a") := .identifier (emitted _ (by decide)) rfl
  have b : OfOperators grammar (.identifier "b") := .identifier (emitted _ (by decide)) rfl
  have power {left right : Expr} (first : OfOperators grammar left)
      (second : OfOperators grammar right) : OfOperators grammar (.binary "^" left right) :=
    .binary (emitted _ (by decide)) (by decide) rfl first second
  have difference {left right : Expr} (first : OfOperators grammar left)
      (second : OfOperators grammar right) : OfOperators grammar (.binary "-" left right) :=
    .binary (emitted _ (by decide)) (by decide) rfl first second
  have read : ∃ tokens, Token.scan Token.standardKeywords "(a^b)^a^(a-b)" = .ok tokens ∧
      parse grammar tokens = .ok (.binary "^" (.binary "^" (.identifier "a") (.identifier "b"))
        (.binary "^" (.identifier "a") (.binary "-" (.identifier "a") (.identifier "b")))) :=
    ⟨_, by with_unfolding_all rfl, by with_unfolding_all rfl⟩
  obtain ⟨same, scannedText, parsedText⟩ := read
  obtain ⟨tokens, printed, parsed | ⟨error, failed, -⟩⟩ :=
    parse_render consistent (power (power a b) (power a (difference a b))) .dense
  · exact ⟨grammar, _, tokens, rfl, by with_unfolding_all rfl, printed, parsed⟩
  · obtain rfl : same = tokens := Except.ok.inj (scannedText.symm.trans printed)
    cases parsedText.symm.trans failed

end Expr

end ExprMachine
