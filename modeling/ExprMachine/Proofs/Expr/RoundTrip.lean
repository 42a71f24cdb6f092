/-
  ExprMachine.Proofs.Expr.RoundTrip

  The text that the tree of a source is printed as is read back as the same tree exactly
  when the tree is faithful: when no prefix operator at the end of a left operand binds
  more loosely than the infix operator after it, and no float is infinite.
-/
import ExprMachine.Evaluation
import ExprMachine.Proofs.Expr.Parsed
import ExprMachine.Proofs.Expr.ParserComplete
import ExprMachine.Proofs.Expr.ParserSound
import ExprMachine.Proofs.Expr.Rendered
import ExprMachine.Proofs.Expr.Reread

namespace ExprMachine

-- ============================================================================
-- The standard grammar
-- ============================================================================

namespace Grammar

theorem mem_of_lookup {entries : List (String × Nat)} {symbol : String} {info : OperatorInfo}
    (h : (entries.map fun (symbol, priority) => (symbol, OperatorInfo.mk priority .left)).lookup
      symbol = some info) : (symbol, info.priority) ∈ entries ∧ info.associativity = .left := by
  obtain ⟨front, back, hentries, -⟩ := List.lookup_eq_some_iff.1 h
  have hmem : (symbol, info) ∈ front ++ (symbol, info) :: back := by simp
  rw [← hentries] at hmem
  obtain ⟨entry, hentry, heq⟩ := List.mem_map.1 hmem
  cases heq
  exact ⟨hentry, rfl⟩

theorem standard_consistent : standard.Consistent := by
  intro symbol symbol' info info' h h' _
  rw [(mem_of_lookup h).2, (mem_of_lookup h').2]

theorem isOperator_of_keyword {symbol : String} (h : symbol ∈ Token.standardKeywords) :
    IsOperator Token.standardKeywords symbol := by
  have all : ∀ keyword ∈ Token.standardKeywords, ∃ c rest, keyword = String.ofList (c :: rest) ∧
      Text.isAlphabetic c = true ∧ rest.all Lexeme.isWordPart = true := by
    simp only [Token.standardKeywords, List.forall_mem_cons]
    exact ⟨⟨'n', ['o', 't'], by decide⟩, ⟨'i', ['n'], by decide⟩, ⟨'a', ['n', 'd'], by decide⟩,
      ⟨'o', ['r'], by decide⟩, by simp⟩
  obtain ⟨c, rest, rfl, opens, parts⟩ := all symbol h
  exact .keyword opens (List.all_eq_true.1 parts) (List.contains_iff_mem.2 h)

theorem standard_spelt : standard.Spelt Token.standardKeywords where
  unary symbol known := by
    have all : ∀ entry ∈ standardUnary, IsOperator Token.standardKeywords entry.1 ∧
        Lexeme.endsOperator entry.1.toList = true := by
      simp only [standardUnary, List.forall_mem_cons]
      exact ⟨⟨isOperator_of_keyword (by decide), by decide⟩,
        ⟨@IsOperator.half _ '!' rfl, by decide⟩, ⟨@IsOperator.lone _ '-' rfl, by decide⟩,
        ⟨@IsOperator.lone _ '+' rfl, by decide⟩, by simp⟩
    obtain ⟨info, known⟩ := Option.isSome_iff_exists.1 known
    exact all _ (mem_of_lookup known).1
  binary symbol known := by
    have all : ∀ entry ∈ standardBinary, IsOperator Token.standardKeywords entry.1 := by
      simp only [standardBinary, List.forall_mem_cons]
      exact ⟨isOperator_of_keyword (by decide), @IsOperator.pair _ '|' '|' rfl rfl,
        isOperator_of_keyword (by decide), @IsOperator.pair _ '&' '&' rfl rfl,
        @IsOperator.pair _ '=' '=' rfl rfl, @IsOperator.pair _ '!' '=' rfl rfl,
        @IsOperator.half _ '<' rfl, @IsOperator.half _ '>' rfl,
        @IsOperator.pair _ '<' '=' rfl rfl, @IsOperator.pair _ '>' '=' rfl rfl,
        isOperator_of_keyword (by decide), @IsOperator.lone _ '+' rfl,
        @IsOperator.lone _ '-' rfl, @IsOperator.lone _ '*' rfl, @IsOperator.lone _ '/' rfl,
        @IsOperator.lone _ '%' rfl, @IsOperator.lone _ '^' rfl, by simp⟩
    obtain ⟨info, known⟩ := Option.isSome_iff_exists.1 known
    exact all _ (mem_of_lookup known).1
  separates := by decide

end Grammar

-- ============================================================================
-- Whole sources
-- ============================================================================

namespace Expr

/-- Whatever is parsed the tokens spell. -/
theorem reads_of_parse {grammar : Grammar} {tokens : List Token} {expr : Expr}
    (h : parse grammar tokens = .ok expr) :
    Reads grammar (.expression 0 expr) (Token.spelt tokens) [] := by
  unfold parse at h
  simp only at h
  split at h
  · cases h
  rename_i parsed hparsed
  split at h
  · rename_i hrest
    cases h
    have sound := Parser.expression_sound _ _ _ _ _ hparsed
    rw [hrest] at sound
    exact sound
  · cases h

/-- Whatever tokens spell is parsed, unless it opens too many levels or is too deep. -/
theorem parse_of_nests {n : Nat} {grammar : Grammar} {tokens : List Token} {expr : Expr}
    (h : Nests grammar n (.expression 0 expr) (Token.spelt tokens) []) :
    (n ≤ maxDepth ∧ expr.depth ≤ maxDepth) ∧ parse grammar tokens = .ok expr ∨
      ¬ (n ≤ maxDepth ∧ expr.depth ≤ maxDepth) ∧ Parser.Refuses (parse grammar tokens) := by
  rcases Parser.expression_complete ⟨grammar, Parser.endPosition tokens⟩ maxDepth _ h with
    ⟨fits, parsed, hparsed, is⟩ | ⟨fits, error, herror, hcause⟩
  · refine .inl ⟨fits, ?_⟩
    unfold parse
    simp only [hparsed]
    cases hrest : parsed.rest with
    | nil => rw [is.expr_eq]
    | cons token more =>
      have := is.rest_eq
      rw [hrest] at this
      cases this
  · refine .inr ⟨fits, error, ?_, hcause⟩
    unfold parse
    simp only [herror]

/-- Whatever tokens spell is parsed, or nests too deeply. -/
theorem parse_of_reads {grammar : Grammar} {tokens : List Token} {expr : Expr}
    (h : Reads grammar (.expression 0 expr) (Token.spelt tokens) []) :
    parse grammar tokens = .ok expr ∨
      ∃ error, parse grammar tokens = .error error ∧ error.cause = .nestedTooDeeply := by
  obtain ⟨n, nests⟩ := h.exists_nests
  rcases parse_of_nests nests with ⟨-, parsed⟩ | ⟨-, refused⟩
  · exact .inl parsed
  · exact .inr refused

/-- The text that a tree is printed as is scanned and can be read as some tree, which is
    the printed one just when that is faithful; then the levels of the printed tree open. -/
theorem nests_of_render {grammar : Grammar} {tree : Expr} (consistent : grammar.Consistent)
    (h : Spellable grammar Token.standardKeywords tree) (spacing : Spacing) :
    ∃ tokens reread, Token.scan Token.standardKeywords (tree.render grammar spacing) = .ok tokens ∧
      (reread = tree ↔ tree.faithful grammar = true) ∧
        NestsIf grammar (tree.faithful grammar = true) (tree.levels grammar + 1)
          (.expression 0 reread) (Token.spelt tokens) [] := by
  obtain ⟨reread, items, hreread⟩ := exists_reread consistent h
  obtain ⟨tokens, hscan, hspelt⟩ := Token.scan_of_scans (scans_render h spacing)
  refine ⟨tokens, reread, hscan, hreread.same, ?_⟩
  rw [hspelt]
  simpa using hreread.whole [] .nil

/-- The text that a tree is printed as is scanned and read as some tree, which is the
    printed one just when that is faithful, or it nests too deeply to be read. -/
theorem parse_of_render {grammar : Grammar} {tree : Expr} (consistent : grammar.Consistent)
    (h : Spellable grammar Token.standardKeywords tree) (spacing : Spacing) :
    ∃ tokens reread, Token.scan Token.standardKeywords (tree.render grammar spacing) = .ok tokens ∧
      (reread = tree ↔ tree.faithful grammar = true) ∧
        (parse grammar tokens = .ok reread ∨
          ∃ error, parse grammar tokens = .error error ∧ error.cause = .nestedTooDeeply) := by
  obtain ⟨tokens, reread, hscan, same, n, nests, -⟩ := nests_of_render consistent h spacing
  exact ⟨tokens, reread, hscan, same, parse_of_reads nests.reads⟩

end Expr

namespace Source

open ExprMachine.Expr

theorem expr_eq_ok_iff {source : String} {tree : Expr} :
    expr source = .ok tree ↔ ∃ tokens, Token.scan Token.standardKeywords source = .ok tokens ∧
      Expr.parse .standard tokens = .ok tree := by
  unfold expr tokens
  cases Token.scan Token.standardKeywords source with
  | error error => simp [Except.mapError]
  | ok tokens =>
    cases hparse : Expr.parse .standard tokens <;> simp [Except.mapError, hparse]

/-- The tree of a source can be spelt. -/
theorem spellable_of_expr {source : String} {tree : Expr} (h : expr source = .ok tree) :
    Spellable .standard Token.standardKeywords tree := by
  obtain ⟨tokens, hscan, hparse⟩ := expr_eq_ok_iff.1 h
  exact (Reads.spellable Grammar.standard_spelt (Expr.reads_of_parse hparse)
    (Token.scans_of_scan hscan).lexed).1

/-- The text that a tree is printed as is read as some tree, which is the printed one just
    when that is faithful, or it nests too deeply to be read. -/
theorem expr_of_render {tree : Expr} (h : Spellable .standard Token.standardKeywords tree)
    (spacing : Expr.Spacing) :
    ∃ reread, (reread = tree ↔ tree.faithful .standard = true) ∧
      (expr (tree.render .standard spacing) = .ok reread ∨
        ∃ error, expr (tree.render .standard spacing) = .error (.parse error) ∧
          error.cause = .nestedTooDeeply) := by
  obtain ⟨tokens, reread, hscan, same, parsed⟩ :=
    parse_of_render Grammar.standard_consistent h spacing
  refine ⟨reread, same, ?_⟩
  rcases parsed with hparse | ⟨error, hparse, hcause⟩
  · exact .inl (expr_eq_ok_iff.2 ⟨tokens, hscan, hparse⟩)
  · refine .inr ⟨error, ?_, hcause⟩
    simp only [expr, Source.tokens, hscan, hparse, Except.mapError]

/-- The tree of a source, printed in either spacing and read again, is the same tree just
    when it is faithful. -/
theorem expr_render_iff {source : String} {tree reread : Expr} {spacing : Expr.Spacing}
    (parsed : expr source = .ok tree)
    (printed : expr (tree.render .standard spacing) = .ok reread) :
    reread = tree ↔ tree.faithful .standard = true := by
  obtain ⟨other, same, hother | ⟨error, herror, -⟩⟩ :=
    expr_of_render (spellable_of_expr parsed) spacing
  · cases printed.symm.trans hother
    exact same
  · cases printed.symm.trans herror

/-- Parentheses around the operand of a prefix operator are kept. -/
theorem expr_render_iff_parentheses : ∃ tree, expr "-(a + b) * c" = .ok tree ∧
    expr (tree.render .standard .dense) = .ok tree ∧ tree.faithful .standard = true := by
  have parsed : expr "-(a + b) * c" = .ok (.binary "*"
      (.unary "-" (.binary "+" (.identifier "a") (.identifier "b"))) (.identifier "c")) := by
    with_unfolding_all rfl
  have printed : expr (Expr.render .standard .dense (.binary "*"
      (.unary "-" (.binary "+" (.identifier "a") (.identifier "b"))) (.identifier "c"))) =
        .ok (.binary "*" (.unary "-" (.binary "+" (.identifier "a") (.identifier "b")))
          (.identifier "c")) := by
    with_unfolding_all rfl
  exact ⟨_, parsed, printed, (expr_render_iff parsed printed).1 rfl⟩

/-- The parentheses around the looser of two prefix operators are lost, and with them the
    left operand of the infix operator. -/
theorem expr_render_ne : ∃ source tree reread, expr source = .ok tree ∧
    (∀ spacing, expr (tree.render .standard spacing) = .ok reread) ∧ reread ≠ tree := by
  refine ⟨"-(not a) * b",
    .binary "*" (.unary "-" (.unary "not" (.identifier "a"))) (.identifier "b"),
    .unary "-" (.unary "not" (.binary "*" (.identifier "a") (.identifier "b"))), ?_, ?_, ?_⟩
  · with_unfolding_all rfl
  · intro spacing
    cases spacing
    · with_unfolding_all rfl
    · with_unfolding_all rfl
  · simp

end Source

end ExprMachine
