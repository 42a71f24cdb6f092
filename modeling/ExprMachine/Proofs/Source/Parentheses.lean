/-
  ExprMachine.Proofs.Source.Parentheses

  Which pairs of parentheses a printed tree needs. Without any other pair the text is not
  read as the tree; the pair around a prefix operator is not needed where nothing behind it
  could be taken for a part of the operand.
-/
import ExprMachine.Proofs.Expr.RoundTrip
import ExprMachine.Proofs.Expr.Sparing
import ExprMachine.Proofs.Expr.Unpaired

namespace ExprMachine

open ExprMachine.Expr Reading

theorem Grammar.standard_positive {symbol : String} {info : OperatorInfo}
    (known : standard.binary? symbol = some info) : 0 < info.priority := by
  have all : ∀ entry ∈ standardBinary, 0 < entry.2 := by decide
  exact all _ (mem_of_lookup known).1

/-- `GroupsAt text before between after`: these are what stands before, between and after a pair
    of parentheses in the text, which does not hold the arguments of a call. -/
structure GroupsAt (text before between after : String) : Prop where
  text_eq : text = before ++ "(" ++ between ++ ")" ++ after
  opens : ∃ tokens, Token.scan Token.standardKeywords before = .ok tokens ∧
    OpensOperand (Token.spelt tokens)
  inside : ∃ tokens, Token.scan Token.standardKeywords between = .ok tokens ∧
    Balanced (Token.spelt tokens)

/-- Whether a pair of parentheses around a printed tree is spare before this text: it is spare
    before the symbols of the text, and no integer would take an index there for its fraction. -/
def Expr.SpareBefore (inner : Expr) (text : String) : Prop :=
  ∃ tokens, Token.scan Token.standardKeywords text = .ok tokens ∧
    inner.Spare .standard (Token.spelt tokens) ∧
      (inner.endsInInt .standard = true → Lexeme.endsWord text.toList = true)

section Whole

variable {before between after : String} {tree : Expr} {spacing : Spacing}

/-- The parentheses of a printed tree stand around trees that the printer has put into them. -/
theorem GroupsAt.exists_encloses (spellable : Spellable .standard Token.standardKeywords tree)
    (h : GroupsAt (tree.render .standard spacing) before between after) :
    ∃ first inner path others, Encloses .standard (.bare tree []) first inner
        (indexSymbols path ++ others) ∧
      Seam .standard spacing tree first inner before.toList after.toList path others ∧
      between = inner.render .standard spacing ∧ OpensOperand first ∧
      Scans Token.standardKeywords after.toList (indexSymbols path ++ others) := by
  obtain ⟨opening, hopening, opens⟩ := h.opens
  obtain ⟨tokens, htokens, balanced⟩ := h.inside
  have hbefore := Token.scans_of_scan hopening
  have hbetween := Token.scans_of_scan htokens
  have htext : (tree.render .standard spacing).toList =
      before.toList ++ '(' :: (between.toList ++ ')' :: after.toList) := by
    simp [h.text_eq]
  have whole := scans_render spellable spacing
  rw [htext] at whole
  obtain ⟨others, hwhole, behind⟩ := whole.split_bracket hbefore (by decide)
  obtain ⟨last, rfl, hafter⟩ := behind.split_bracket hbetween (by decide)
  obtain ⟨inner, encloses, same⟩ :=
    Stretch.located_bare tree [] (.inl rfl) _ _ _ balanced opens hwhole
  rw [same] at hbetween
  have hinner := scans_render (encloses.hereditary Spellable.hereditary spellable) spacing
  obtain ⟨front, back, path, others, rfl, seam⟩ := encloses.exists_seam spellable spacing
  -- The brackets are where they are, so that the text is cut in the same places.
  obtain ⟨rfl, hback⟩ := seam.leads.eq_of_bracket (htext.symm.trans seam.text_eq).symm hbefore
    (by decide)
  obtain ⟨hsame, rfl⟩ := hinner.eq_of_bracket hback hbetween (by decide)
  exact ⟨_, inner, path, others, encloses, seam, String.toList_inj.1 hsame.symm, opens, hafter⟩

end Whole

namespace Source

variable {source before between after : String} {tree inner : Expr} {spacing : Spacing}
  {first others : List Symbol} {path : List String}

/-- A pair without which a printed tree is read as itself is spare. -/
theorem spareBefore_of_expr (spellable : Spellable .standard Token.standardKeywords tree)
    (encloses : Encloses .standard (.bare tree []) first inner (indexSymbols path ++ others))
    (seam : Seam .standard spacing tree first inner before.toList after.toList path others)
    (hafter : Scans Token.standardKeywords after.toList (indexSymbols path ++ others))
    (reread : expr (before ++ inner.render .standard spacing ++ after) = .ok tree) :
    inner.SpareBefore after := by
  obtain ⟨symbols, scans, left⟩ :=
    seam.exists_scans (encloses.hereditary Spellable.hereditary spellable)
  obtain ⟨tokens, htokens, hspelt⟩ := Token.scan_of_scans hafter
  refine ⟨tokens, htokens, ?_⟩
  rw [hspelt]
  have text : (before ++ inner.render .standard spacing ++ after).toList =
      before.toList ++ ((inner.render .standard spacing).toList ++ after.toList) := by
    simp
  rw [← text] at scans
  -- What is read is the tree with some pairs of parentheses.
  obtain ⟨read, hread, hparse⟩ := expr_eq_ok_iff.1 reread
  obtain ⟨same, hsame, rfl⟩ := Token.scan_of_scans scans
  obtain rfl : read = same := Except.ok.inj (hread.symm.trans hsame)
  obtain ⟨written, hwritten, paired, bracketed, -⟩ :=
    (reads_of_parse hparse).exists_bracketed Grammar.standard_withoutPoint
  obtain rfl : outline (Token.spelt read) = written := by simpa using hwritten
  rcases left with ⟨same, apart⟩ | less
  · have keeps := encloses.keeps Grammar.standard_withoutPoint Grammar.standard_consistent
      (fun _ _ => Grammar.standard_positive) ⟨spellable, by simp⟩
    rw [SameOutline, outline_append, outline_append] at same
    rw [same] at bracketed
    have spare := keeps.spare bracketed
    rw [outline_nil, List.append_nil] at spare
    exact ⟨spare.of_outline, apart⟩
  · have counts := bracketed.size_eq Grammar.standard_withoutPoint
    rw [Smaller, counts, outline_append, outline_append, encloses.size_eq, Stretch.symbols,
      spellable.size_eq] at less
    exact absurd less (Nat.lt_irrefl _)

/-- A printed tree that is read as itself is so without a pair that is spare. -/
theorem expr_of_spareBefore (spellable : Spellable .standard Token.standardKeywords tree)
    (encloses : Encloses .standard (.bare tree []) first inner (indexSymbols path ++ others))
    (seam : Seam .standard spacing tree first inner before.toList after.toList path others)
    (opens : OpensOperand first)
    (hafter : Scans Token.standardKeywords after.toList (indexSymbols path ++ others))
    (printed : expr (tree.render .standard spacing) = .ok tree)
    (spare : inner.SpareBefore after) :
    expr (before ++ inner.render .standard spacing ++ after) = .ok tree := by
  obtain ⟨last, hlast, yields, apart⟩ := spare
  obtain ⟨again, hagain, hspelt⟩ := Token.scan_of_scans hafter
  obtain rfl : last = again := Except.ok.inj (hlast.symm.trans hagain)
  rw [hspelt] at yields
  -- The printed tree is read within the limits.
  obtain ⟨tokens, hscan, hparse⟩ := expr_eq_ok_iff.1 printed
  obtain ⟨same, hsame, hsymbols⟩ := Token.scan_of_scans (scans_render spellable spacing)
  obtain rfl : tokens = same := Except.ok.inj (hscan.symm.trans hsame)
  obtain ⟨n, nests⟩ := (reads_of_parse hparse).exists_nests
  have fits : n ≤ maxDepth ∧ tree.depth ≤ maxDepth := by
    rcases parse_of_nests nests with ⟨fits, -⟩ | ⟨-, error, refused, -⟩
    · exact fits
    · cases hparse.symm.trans refused
  rw [hsymbols] at nests
  have faithful : tree.faithful .standard = true := by
    obtain ⟨reread, faithful, parsed | ⟨error, refused, -⟩⟩ := expr_of_render spellable spacing
    · cases printed.symm.trans parsed
      exact faithful.1 rfl
    · cases printed.symm.trans refused
  -- Without the pair it opens no more levels.
  obtain ⟨m, le, without⟩ := Nests.without_spare encloses yields Grammar.standard_consistent
    Grammar.standard_withoutPoint Grammar.standard_spelt.separates spellable faithful fits.2 opens
    nests
  have scans := seam.scans_of_spare (encloses.hereditary Spellable.hereditary spellable) yields
    apart
  have text : (before ++ inner.render .standard spacing ++ after).toList =
      before.toList ++ ((inner.render .standard spacing).toList ++ after.toList) := by
    simp
  rw [← text] at scans
  obtain ⟨left, hleft, hspelt⟩ := Token.scan_of_scans scans
  rw [← hspelt] at without
  rcases parse_of_nests without with ⟨-, parsed⟩ | ⟨tooDeep, -⟩
  · exact expr_eq_ok_iff.2 ⟨left, hleft, parsed⟩
  · exact absurd ⟨Nat.le_trans le fits.1, fits.2⟩ tooDeep

/-- When a printed tree is read as itself without one of its pairs of parentheses, there is a
    prefix operator in the pair, behind it an infix operator that binds less tightly or none,
    and no part of a receiver unless the operand ends in a literal of one token; nor is this an
    integer before an index. Such a pair is not needed, if the printed tree is read as itself. -/
theorem expr_without_pair (parsed : expr source = .ok tree)
    (pair : GroupsAt (tree.render .standard spacing) before between after) :
    ∃ inner : Expr, between = inner.render .standard spacing ∧
      (expr (before ++ between ++ after) = .ok tree → inner.SpareBefore after) ∧
      (expr (tree.render .standard spacing) = .ok tree → inner.SpareBefore after →
        expr (before ++ between ++ after) = .ok tree) := by
  have spellable := spellable_of_expr parsed
  obtain ⟨first, inner, path, others, encloses, seam, rfl, opens, hafter⟩ :=
    pair.exists_encloses spellable
  exact ⟨inner, rfl, spareBefore_of_expr spellable encloses seam hafter,
    expr_of_spareBefore spellable encloses seam opens hafter⟩

/-- A negation on the right of a product. -/
theorem expr_without_pair_negation : ∃ inner : Expr,
    "not b" = inner.render .standard .expanded ∧ inner.SpareBefore "" := by
  have parsed : expr "a * (not b)" = .ok (.binary "*" (.identifier "a")
      (.unary "not" (.identifier "b"))) := by
    with_unfolding_all rfl
  have pair : GroupsAt (Expr.render .standard .expanded (.binary "*" (.identifier "a")
      (.unary "not" (.identifier "b")))) "a * " "not b" "" := by
    refine ⟨by with_unfolding_all rfl, ⟨[⟨.identifier, ⟨1, 0⟩, "a"⟩, ⟨.operator, ⟨1, 2⟩, "*"⟩,
        ⟨.endOfInput, ⟨1, 4⟩, ""⟩], by with_unfolding_all rfl, by decide⟩,
      ⟨[⟨.operator, ⟨1, 0⟩, "not"⟩, ⟨.identifier, ⟨1, 4⟩, "b"⟩, ⟨.endOfInput, ⟨1, 5⟩, ""⟩],
        by with_unfolding_all rfl, by decide⟩⟩
  have reread : expr ("a * " ++ "not b" ++ "") = .ok (.binary "*" (.identifier "a")
      (.unary "not" (.identifier "b"))) := by
    with_unfolding_all rfl
  obtain ⟨inner, same, spare, -⟩ := expr_without_pair parsed pair
  exact ⟨inner, same, spare reread⟩

/-- The parentheses around a negation on the right of a product are not needed at the end of a
    source, and the printer puts them there in either spacing. -/
theorem expr_without_pair_eq : ∃ tree, expr "a * not b" = .ok tree ∧
    ∀ spacing, ∃ before between after,
      GroupsAt (tree.render .standard spacing) before between after ∧
        expr (before ++ between ++ after) = .ok tree := by
  refine ⟨.binary "*" (.identifier "a") (.unary "not" (.identifier "b")),
    by with_unfolding_all rfl, fun spacing => ?_⟩
  have inside : ∃ tokens, Token.scan Token.standardKeywords "not b" = .ok tokens ∧
      Balanced (Token.spelt tokens) :=
    ⟨[⟨.operator, ⟨1, 0⟩, "not"⟩, ⟨.identifier, ⟨1, 4⟩, "b"⟩, ⟨.endOfInput, ⟨1, 5⟩, ""⟩],
      by with_unfolding_all rfl, by decide⟩
  cases spacing with
  | dense =>
    refine ⟨"a*", "not b", "", ⟨by with_unfolding_all rfl, ?_, inside⟩, by with_unfolding_all rfl⟩
    exact ⟨[⟨.identifier, ⟨1, 0⟩, "a"⟩, ⟨.operator, ⟨1, 1⟩, "*"⟩, ⟨.endOfInput, ⟨1, 2⟩, ""⟩],
      by with_unfolding_all rfl, by decide⟩
  | expanded =>
    refine ⟨"a * ", "not b", "", ⟨by with_unfolding_all rfl, ?_, inside⟩,
      by with_unfolding_all rfl⟩
    exact ⟨[⟨.identifier, ⟨1, 0⟩, "a"⟩, ⟨.operator, ⟨1, 2⟩, "*"⟩, ⟨.endOfInput, ⟨1, 4⟩, ""⟩],
      by with_unfolding_all rfl, by decide⟩

end Source

end ExprMachine
