/-
  ExprMachine.Proofs.Expr.Limits

  Printed text and the limits of the parser. What the tree of a source is printed as can
  only be refused for nesting too deeply, and a faithful tree just when its printed text
  opens more levels than the parser has. The printer adds parentheses around a prefix
  operator on the right of a tighter infix operator, each pair of them a level that the
  source did not open: so there are sources whose printed text is refused.
-/
import ExprMachine.Proofs.Expr.RoundTrip

namespace ExprMachine

-- ============================================================================
-- Levels and depth
-- ============================================================================

namespace Expr

/-- Every level of a tree opens at most two levels of reading: its own and that of the
    parentheses around it. -/
theorem levels_le_depth {grammar : Grammar} (expr : Expr) :
    levels grammar expr + 2 ≤ 2 * expr.depth := by
  have toNat_le (b : Bool) : b.toNat ≤ 1 := Bool.toNat_le b
  have all {exprs : List Expr}
      (h : ∀ expr ∈ exprs, levels grammar expr + 2 ≤ 2 * expr.depth) :
      levelsAll grammar exprs ≤ 2 * depthAll exprs := by
    induction exprs with
    | nil => exact Nat.zero_le _
    | cons expr exprs ih =>
      have hfirst := h expr List.mem_cons_self
      have hothers := ih fun other hother => h other (List.mem_cons_of_mem _ hother)
      rw [levelsAll, depthAll]
      omega
  induction expr with
  | unary symbol operand ih =>
    have := toNat_le (wrapsUnder grammar (unaryPriority grammar symbol) operand)
    rw [levels, depth]
    omega
  | binary symbol left right ihLeft ihRight =>
    have := toNat_le (wrapsBeside grammar (binaryPriority grammar symbol)
      (groupsRight grammar symbol) left)
    have := toNat_le (wrapsBeside grammar (binaryPriority grammar symbol)
      (!groupsRight grammar symbol) right)
    rw [levels, depth]
    omega
  | methodCall receiver name arguments ih ihArguments =>
    have := toNat_le (!takesParts receiver)
    have := all ihArguments
    rw [levels, depth]
    omega
  | call name arguments ih =>
    have := all ih
    rw [levels, depth]
    omega
  | property receiver name ih =>
    have := toNat_le (!takesParts receiver)
    rw [levels, depth]
    omega
  | list items ih =>
    have := all ih
    rw [levels, depth]
    omega
  | _ => simp [levels, depth]

/-- The printed text of a faithful tree within the limit of depth is read exactly when it
    opens no more levels than the parser has, and refused else. -/
theorem parse_of_faithful {grammar : Grammar} {tree : Expr} (consistent : grammar.Consistent)
    (h : Spellable grammar Token.standardKeywords tree) (faithful : tree.faithful grammar = true)
    (shallow : tree.depth ≤ maxDepth) (spacing : Spacing) :
    ∃ tokens, Token.scan Token.standardKeywords (tree.render grammar spacing) = .ok tokens ∧
      (tree.levels grammar < maxDepth ∧ parse grammar tokens = .ok tree ∨
        ¬ tree.levels grammar < maxDepth ∧ Parser.Refuses (parse grammar tokens)) := by
  obtain ⟨tokens, reread, hscan, same, n, nests, hn⟩ := nests_of_render consistent h spacing
  obtain rfl := same.2 faithful
  rw [hn faithful] at nests
  refine ⟨tokens, hscan, ?_⟩
  rcases parse_of_nests nests with ⟨fits, parsed⟩ | ⟨fits, refused⟩
  · exact .inl ⟨fits.1, parsed⟩
  · exact .inr ⟨fun h => fits ⟨h, shallow⟩, refused⟩

end Expr

namespace Source

open ExprMachine.Expr

/-- The tree of a source, printed in either spacing, is text whose tokens are read or nest
    too deeply. The text of a faithful tree is read exactly when the levels inside it are
    fewer than the parser has; those of a tree of half the depth that is allowed are. -/
theorem render_accepted_iff {source : String} {tree : Expr} (parsed : expr source = .ok tree)
    (spacing : Expr.Spacing) :
    ∃ tokens, Token.scan Token.standardKeywords (tree.render .standard spacing) = .ok tokens ∧
      (∀ error, Expr.parse .standard tokens = .error error → error.code = "RB-P007") ∧
      (tree.faithful .standard = true →
        (Expr.parse .standard tokens = .ok tree ↔ tree.levels .standard < 256) ∧
          (tree.depth ≤ 128 → Expr.parse .standard tokens = .ok tree)) := by
  have spellable := spellable_of_expr parsed
  obtain ⟨sourceTokens, -, sourceParsed⟩ := expr_eq_ok_iff.1 parsed
  have shallow : tree.depth ≤ maxDepth := depth_le_of_parse sourceParsed
  obtain ⟨tokens, reread, hscan, -, outcome⟩ :=
    parse_of_render Grammar.standard_consistent spellable spacing
  refine ⟨tokens, hscan, fun error herror => ?_, fun faithful => ?_⟩
  · rcases outcome with accepted | ⟨error', herror', hcause⟩
    · cases herror.symm.trans accepted
    · obtain rfl : error = error' := Except.error.inj (herror.symm.trans herror')
      simp only [ParseError.code, hcause]
  · obtain ⟨tokens', hscan', reading⟩ :=
      parse_of_faithful Grammar.standard_consistent spellable faithful shallow spacing
    obtain rfl : tokens = tokens' := Except.ok.inj (hscan.symm.trans hscan')
    have accepted_iff : Expr.parse .standard tokens = .ok tree ↔ tree.levels .standard < 256 := by
      rcases reading with ⟨fits, accepted⟩ | ⟨fits, error', herror', -⟩
      · exact iff_of_true accepted fits
      · exact iff_of_false (fun accepted => by cases accepted.symm.trans herror') fits
    refine ⟨accepted_iff, fun half => accepted_iff.2 ?_⟩
    have bound := @levels_le_depth .standard tree
    omega

/-- A product with a negation on its right is printed with parentheses, and read. -/
theorem render_accepted_iff_negation : ∃ tree, expr "a * not b" = .ok tree ∧
    tree.levels .standard = 3 ∧ tree.faithful .standard = true ∧
    ∃ tokens, Token.scan Token.standardKeywords (tree.render .standard .expanded) = .ok tokens ∧
      Expr.parse .standard tokens = .ok tree := by
  have parsed : expr "a * not b" =
      .ok (.binary "*" (.identifier "a") (.unary "not" (.identifier "b"))) := by
    with_unfolding_all rfl
  obtain ⟨tokens, hscan, -, accepted⟩ := render_accepted_iff parsed .expanded
  exact ⟨_, parsed, by decide, by decide, tokens, hscan, (accepted (by decide)).1.2 (by decide)⟩

end Source

-- ============================================================================
-- Products of negations
-- ============================================================================

namespace Expr

/-- `a * not (a * not (… a))`, with so many products. -/
def negatedProducts : Nat → Expr
  | 0 => .identifier "a"
  | n + 1 => .binary "*" (.identifier "a") (.unary "not" (negatedProducts n))

/-- The characters of `a * not a * not … a`, without parentheses. -/
def negatedProductsChars : Nat → List Char
  | 0 => ['a']
  | n + 1 => 'a' :: ' ' :: '*' :: ' ' :: 'n' :: 'o' :: 't' :: ' ' :: negatedProductsChars n

/-- Its symbols. -/
def negatedProductsSymbols : Nat → List Symbol
  | 0 => [.word "a"]
  | n + 1 => .word "a" :: .operator "*" :: .operator "not" :: negatedProductsSymbols n

theorem depth_negatedProducts (n : Nat) : (negatedProducts n).depth = 2 * n + 1 := by
  induction n with
  | zero => rfl
  | succ n ih =>
    simp only [negatedProducts, depth, ih]
    omega

theorem faithful_negatedProducts (n : Nat) : (negatedProducts n).faithful .standard = true := by
  induction n with
  | zero => rfl
  | succ n ih => simp [negatedProducts, faithful, swallows, ih]

/-- Every product opens three levels in the printed text: its right operand, the
    parentheses there, and the operand of the negation. -/
theorem levels_negatedProducts (n : Nat) : (negatedProducts n).levels .standard = 3 * n := by
  induction n with
  | zero => rfl
  | succ n ih =>
    have noParentheses : wrapsUnder .standard (unaryPriority .standard "not")
        (negatedProducts n) = false := by
      cases n <;> rfl
    have parentheses : wrapsBeside .standard (binaryPriority .standard "*")
        (!groupsRight .standard "*") (.unary "not" (negatedProducts n)) = true := by
      rfl
    have bare : wrapsBeside .standard (binaryPriority .standard "*")
        (groupsRight .standard "*") (.identifier "a") = false := by
      rfl
    rw [negatedProducts, levels, levels, levels, ih, noParentheses, parentheses, bare]
    simp only [Bool.toNat_true, Bool.toNat_false]
    omega

/-- In the source it opens only two. -/
theorem nests_negatedProducts (n : Nat) {least : Nat} (h : least ≤ 6) :
    Nests .standard (2 * n + 1) (.expression least (negatedProducts n))
      (negatedProductsSymbols n) [] := by
  have knownTimes : Grammar.standard.binary? "*" = some ⟨6, .left⟩ := by rfl
  have knownNot : Grammar.standard.unary? "not" = some ⟨5, .left⟩ := by rfl
  have name {rest : List Symbol} (apart : Reading.opensPart (.identifier "a") rest = false) :
      Nests .standard 0 (.operand (.identifier "a")) (.word "a" :: rest) rest :=
    .operand (.name (by decide)) apart
  induction n generalizing least with
  | zero => exact .expression (.single (name rfl)) rfl
  | succ n ih =>
    have left : Nests .standard 0 (.chain least (.identifier "a"))
        (negatedProductsSymbols (n + 1)) (.operator "*" :: .operator "not" ::
          negatedProductsSymbols n) := .single (name rfl)
    have negation : Nests .standard (2 * n + 1) (.operand (.unary "not" (negatedProducts n)))
        (.operator "not" :: negatedProductsSymbols n) [] :=
      .operand (.unary knownNot (ih (by decide))) rfl
    have right : Nests .standard (2 * n + 2) (.expression 7 (.unary "not" (negatedProducts n)))
        (.operator "not" :: negatedProductsSymbols n) [] := .expression (.single negation) rfl
    have product : Nests .standard (max 0 (2 * n + 2)) (.chain least (negatedProducts (n + 1)))
        (negatedProductsSymbols (n + 1)) [] :=
      .binary left knownTimes h right
    rw [Nat.zero_max] at product
    exact .expression product rfl

theorem scans_negatedProducts (n : Nat) :
    Scans Token.standardKeywords (negatedProductsChars n) (negatedProductsSymbols n) := by
  induction n with
  | zero => exact .token (.word (c := 'a') (by decide) rfl rfl (by decide)) .nil
  | succ n ih =>
    have negation : Scans Token.standardKeywords ('n' :: 'o' :: 't' :: ' ' ::
        negatedProductsChars n) (.operator "not" :: negatedProductsSymbols n) :=
      .token (.keyword (c := 'n') (by decide) rfl rfl (by decide)) (.blank (by decide) ih)
    have product : Scans Token.standardKeywords ('*' :: ' ' :: 'n' :: 'o' :: 't' :: ' ' ::
        negatedProductsChars n) (.operator "*" :: .operator "not" :: negatedProductsSymbols n) :=
      .token (.lone (c := '*') (by decide)) (.blank (by decide) negation)
    exact .token (.word (c := 'a') (by decide) rfl rfl (by decide)) (.blank (by decide) product)

end Expr

namespace Source

open ExprMachine.Expr

/-- The source of a product of negations is read while its levels are within the limit. -/
theorem expr_negatedProducts {n : Nat} (h : n ≤ 127) :
    expr (String.ofList (negatedProductsChars n)) = .ok (negatedProducts n) := by
  have scans := scans_negatedProducts n
  rw [← String.toList_ofList (l := negatedProductsChars n)] at scans
  obtain ⟨tokens, hscan, hspelt⟩ := Token.scan_of_scans scans
  refine expr_eq_ok_iff.2 ⟨tokens, hscan, ?_⟩
  have nests := nests_negatedProducts n (Nat.zero_le 6)
  rw [← hspelt] at nests
  have fits : 2 * n + 1 ≤ maxDepth ∧ (negatedProducts n).depth ≤ maxDepth := by
    rw [depth_negatedProducts, maxDepth]
    omega
  rcases parse_of_nests nests with ⟨-, parsed⟩ | ⟨deep, -⟩
  · exact parsed
  · exact absurd fits deep

/-- A source of 86 products is read, and in neither spacing is the text that its tree is
    printed as. -/
theorem render_refused : ∃ tree, expr (String.ofList (negatedProductsChars 86)) = .ok tree ∧
    ∀ spacing, ∃ error, expr (tree.render .standard spacing) = .error (.parse error) ∧
      error.code = "RB-P007" := by
  have parsed := @expr_negatedProducts 86 (by decide)
  refine ⟨_, parsed, fun spacing => ?_⟩
  have shallow : (negatedProducts 86).depth ≤ maxDepth := by
    rw [depth_negatedProducts]
    decide
  obtain ⟨tokens, hscan, reading⟩ := parse_of_faithful Grammar.standard_consistent
    (spellable_of_expr parsed) (faithful_negatedProducts 86) shallow spacing
  rw [levels_negatedProducts] at reading
  rcases reading with ⟨fits, -⟩ | ⟨-, error, herror, hcause⟩
  · exact absurd fits (by decide)
  · refine ⟨error, ?_, by simp only [ParseError.code, hcause]⟩
    simp only [expr, Source.tokens, hscan, herror, Except.mapError]

end Source

end ExprMachine
