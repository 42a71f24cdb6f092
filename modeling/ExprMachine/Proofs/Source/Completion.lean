/-
  ExprMachine.Proofs.Source.Completion

  The parser gives up at the first token that cannot follow. The tokens before the one to
  blame can be continued to an expression, as long as no limit of depth comes into play: a
  source of a hundred tokens is too light for it, because a number has one point inside at
  most and makes a tree two levels deeper.
-/
import ExprMachine.Proofs.Expr.Embedding
import ExprMachine.Proofs.Expr.Failures
import ExprMachine.Proofs.Expr.RoundTrip
import ExprMachine.Proofs.Source.Lines
import ExprMachine.Proofs.Token.Widening

namespace ExprMachine

-- ============================================================================
-- Points in numbers
-- ============================================================================

namespace Lexeme

theorem not_mem_point_takeWhile (base : Nat) (text : List Char) :
    '.' ∉ text.takeWhile (isDigitPart base) := by
  intro mem
  have part := isWordPart_of_isDigitPart (isDigitPart_takeWhile '.' mem)
  exact absurd part (by decide)

theorem count_point_fraction (base : Nat) (text : List Char) :
    (fraction base text).1.count '.' ≤ 1 := by
  unfold fraction
  split
  · split
    · rw [List.count_cons_self, List.count_eq_zero.2 (not_mem_point_takeWhile _ _)]
    · exact Nat.zero_le 1
  · exact Nat.zero_le 1

/-- A number goes on after its start with one point at most. -/
theorem count_point_of_numberFrom {base : Nat} {taken rest lexeme left : List Char}
    (h : numberFrom base taken rest = .ok (lexeme, left)) :
    ∃ body, lexeme = taken ++ body ∧ body.count '.' ≤ 1 := by
  simp only [numberFrom] at h
  split at h
  · cases h
    refine ⟨_, List.append_assoc .., ?_⟩
    rw [List.count_append, List.count_eq_zero.2 (not_mem_point_takeWhile _ _), Nat.zero_add]
    exact count_point_fraction _ _
  · cases h

theorem count_point_of_number {c : Char} {source lexeme left : List Char}
    (h : number (c :: source) = .ok (lexeme, left)) : (lexeme.drop 1).count '.' ≤ 1 := by
  unfold number at h
  split at h
  · obtain ⟨body, rfl, points⟩ := count_point_of_numberFrom h
    exact points
  · split at h
    · rename_i mark _ _ _ base announced
      simp only at h
      split at h
      · obtain ⟨body, rfl, points⟩ := count_point_of_numberFrom h
        have letter : mark ≠ '.' := by
          rintro rfl
          cases announced
        rw [List.cons_append, List.drop_one, List.tail_cons, List.singleton_append,
          List.count_cons_of_ne letter]
        exact points
      · cases h
    · obtain ⟨body, rfl, points⟩ := count_point_of_numberFrom h
      exact points
  · obtain ⟨body, rfl, points⟩ := count_point_of_numberFrom h
    exact points
  · rename_i heq
    cases heq

end Lexeme

theorem Expr.length_indexPath {lexeme : String} {path : List String}
    (h : indexPath lexeme = some path) :
    path.length = (lexeme.toList.drop 1).count '.' + 1 := by
  rw [← Source.length_splitOn]
  unfold indexPath at h
  generalize (lexeme.toList.drop 1).splitOn '.' = segments at h ⊢
  induction segments generalizing path with
  | nil =>
    cases h
    rfl
  | cons segment segments ih =>
    rw [List.mapM_cons] at h
    obtain ⟨index, -, h⟩ := Option.bind_eq_some_iff.1 h
    obtain ⟨rest, hrest, h⟩ := Option.bind_eq_some_iff.1 h
    cases h
    rw [List.length_cons, List.length_cons, ih hrest]

-- ============================================================================
-- Weights of tokens
-- ============================================================================

/-- No symbol of a source makes a tree more than two levels deeper. -/
theorem Symbol.Lexed.weight_le_two {keywords : List String} {symbol : Symbol}
    (h : symbol.Lexed keywords) : symbol.weight ≤ 2 := by
  unfold Symbol.weight
  split
  · exact Nat.zero_le 2
  · exact Nat.zero_le 2
  · rename_i value
    obtain ⟨c, source, rest, -, read⟩ := exists_number_of_lexed h
    have points := Lexeme.count_point_of_number read
    refine Nat.max_le.2 ⟨Nat.le_succ 1, ?_⟩
    cases denotes : Expr.indexPath value with
    | none => exact Nat.zero_le 2
    | some path =>
      rw [Option.getD_some, Expr.length_indexPath denotes]
      exact Nat.succ_le_succ points
  · exact Nat.le_succ 1

namespace Reading

theorem weight_le {keywords : List String} {symbols : List Symbol}
    (h : ∀ symbol ∈ symbols, symbol.Lexed keywords) : weight symbols ≤ 2 * symbols.length := by
  induction symbols with
  | nil => exact Nat.le_refl 0
  | cons symbol symbols ih =>
    obtain ⟨lexed, others⟩ := List.forall_mem_cons.1 h
    have first := lexed.weight_le_two
    have rest := ih others
    rw [weight_cons, List.length_cons]
    omega

end Reading

-- ============================================================================
-- Places of tokens
-- ============================================================================

theorem Position.ne_advanceAll {place : Position} {text : List Char} (h : text ≠ []) :
    place ≠ place.advanceAll text := by
  obtain ⟨c, rest, rfl⟩ := List.exists_cons_of_ne_nil h
  exact advanceAll_ne place c rest

theorem Lexes.lexeme_ne_nil {keywords : List String} {lexeme left : List Char}
    {symbol : Symbol} (h : Lexes keywords (lexeme ++ left) symbol left) : lexeme ≠ [] := by
  rintro rfl
  exact absurd h.length_lt (Nat.lt_irrefl _)

/-- No two tokens stand at the same place. -/
theorem Tokenizes.pairwise {keywords : List String} {place : Position} {source rest : List Char}
    {tokens : List Token} (h : Tokenizes keywords place source tokens rest) :
    tokens.Pairwise (·.position ≠ ·.position) := by
  induction h with
  | done => exact .nil
  | blank _ _ ih => exact ih
  | token starts lexes more ih =>
    refine .cons (fun other mem => ?_) ih
    obtain ⟨front, back, rfl⟩ := List.append_of_mem mem
    obtain ⟨between, _, _, -, position, -⟩ := more.split
    rw [starts, position, ← Position.advanceAll_append]
    exact Position.ne_advanceAll (List.append_ne_nil_of_left_ne_nil lexes.lexeme_ne_nil _)

/-- Neither does the end of the source stand where a token does. -/
theorem Token.pairwise_of_scan {keywords : List String} {source : String} {tokens : List Token}
    (h : scan keywords source = .ok tokens) : tokens.Pairwise (·.position ≠ ·.position) := by
  obtain ⟨found, rfl, -, tokenizes⟩ := marked_of_scan h
  refine List.pairwise_append.2 ⟨tokenizes.pairwise, List.pairwise_singleton .., ?_⟩
  intro token mem mark isMark
  obtain rfl := List.mem_singleton.1 isMark
  obtain ⟨front, back, rfl⟩ := List.append_of_mem mem
  obtain ⟨before, lexeme, after, hsource, position, -, lexes, -⟩ := tokenizes.split
  rw [hsource, ← Position.advanceAll_start, Position.advanceAll_append, ← position]
  exact Position.ne_advanceAll (List.append_ne_nil_of_left_ne_nil lexes.lexeme_ne_nil _)

/-- A token of a source is known by its place. -/
theorem Token.eq_of_position_eq {keywords : List String} {source : String}
    {tokens : List Token} (h : scan keywords source = .ok tokens) {i j : Nat}
    {token other : Token} (hi : tokens[i]? = some token) (hj : tokens[j]? = some other)
    (same : other.position = token.position) : j = i := by
  have places : (tokens.map position).Nodup := List.pairwise_map.2 (pairwise_of_scan h)
  obtain ⟨bound, -⟩ := List.getElem?_eq_some_iff.1 hj
  refine (List.getElem?_inj (by rwa [List.length_map]) places).1 ?_
  rw [List.getElem?_map, List.getElem?_map, hi, hj, Option.map_some, Option.map_some, same]

-- ============================================================================
-- Completions
-- ============================================================================

namespace Expr

open ExprMachine.Parser Reading

variable {grammar : Grammar} {tokens : List Token}

/-- Whatever tokens spell is parsed, if they are light enough for the limit. -/
theorem parse_of_light {expr : Expr}
    (h : Reads grammar (.expression 0 expr) (Token.spelt tokens) [])
    (light : Reading.weight (Token.spelt tokens) ≤ maxDepth) : parse grammar tokens = .ok expr := by
  obtain ⟨levels, nests⟩ := h.exists_nests
  have bound := nests.burden_le
  rw [weight_nil, Nat.add_zero] at bound
  obtain ⟨few, shallow⟩ := Nat.max_le.1 (Nat.le_trans bound light)
  rcases parse_of_nests nests with ⟨-, parsed⟩ | ⟨deep, -⟩
  · exact parsed
  · exact absurd ⟨few, shallow⟩ deep

/-- Tokens of some symbols, wherever they stand. -/
def tokensOf (symbols : List Symbol) : List Token :=
  symbols.map fun symbol => ⟨symbol.kind, .start, symbol.value⟩

theorem spelt_tokensOf {front : List Token} {more : List Symbol}
    (frontNoEnd : ∀ token ∈ front, token.isEnd = false)
    (noEnd : ∀ symbol ∈ more, symbol.kind ≠ .endOfInput) :
    Token.spelt (front ++ tokensOf more) = Token.symbols front ++ more := by
  have inner : ∀ token ∈ front ++ tokensOf more, (!token.isEnd) = true := by
    refine List.forall_mem_append.2 ⟨by simpa using frontNoEnd, fun token mem => ?_⟩
    obtain ⟨symbol, hsymbol, rfl⟩ := List.mem_map.1 mem
    simpa [Token.isEnd] using noEnd symbol hsymbol
  have same : Token.symbol ∘ (fun symbol : Symbol => ⟨symbol.kind, .start, symbol.value⟩) = id :=
    rfl
  rw [Token.spelt, List.takeWhile_eq_self_iff.2 inner, symbols_append]
  rw [tokensOf, Token.symbols, Token.symbols, List.map_map, same, List.map_id]

/-- An error that no limit has caused and no open bracket is at the first token that cannot
    follow: those before it go on to an expression. -/
theorem exists_completion {error : ParseError} (separates : grammar.separates = true)
    (h : parse grammar tokens = .error error) (code : error.code ≠ "RB-P005")
    (few : (Token.spelt tokens).length < maxDepth)
    (light : Reading.weight (Token.spelt tokens) < maxDepth) :
    ∃ front halted, tokens.takeWhile (!·.isEnd) = front ++ halted ∧
      error.position = (Setting.current ⟨grammar, endPosition tokens⟩ halted).position ∧
        ∃ more tree, parse grammar (front ++ more) = .ok tree := by
  cases parse_fails h with
  | tooDeep _ limit =>
    rw [Token.spelt, Token.symbols, List.length_map] at few
    exact absurd limit (not_or.2 ⟨Nat.not_le.2 few, Nat.not_lt.2 (Nat.le_of_lt light)⟩)
  | unclosed _ other => exact absurd other code
  | @stopped front halted _ split place _ begins =>
    obtain ⟨written, more, hwritten, completes⟩ := begins.exists_completion separates
    obtain ⟨tree, reads⟩ := completes.reads [] .nil
    rw [split, symbols_append] at hwritten
    obtain rfl := List.append_cancel_right hwritten
    have inner : ∀ token ∈ front, token.isEnd = false := by
      intro token mem
      have := List.mem_takeWhile_imp (split ▸ List.mem_append_left halted mem)
      simpa using this
    have spelt := spelt_tokensOf inner completes.noEnd
    refine ⟨front, halted, split, place, tokensOf more, tree, parse_of_light ?_ ?_⟩
    · rw [spelt]
      rwa [List.append_nil] at reads
    · have added := completes.light
      rw [Token.spelt, split, symbols_append, weight_append] at light
      rw [spelt, weight_append]
      omega

end Expr

namespace Source

open Reading

theorem endPosition_concat {found : List Token} {mark : Token}
    (noEnd : ∀ token ∈ found, token.isEnd = false) (isEnd : mark.isEnd = true) :
    Parser.endPosition (found ++ [mark]) = mark.position := by
  have none : found.find? Token.isEnd = none := List.find?_eq_none.2 (by simpa using noEnd)
  rw [Parser.endPosition, List.find?_append, none, Option.none_or,
    List.find?_cons_of_pos isEnd]

/-- Errors of the parser come at the first impossible token, which is the only one at its
    place: the tokens before it are the beginning of an expression. The mark of the end
    comes on top of the hundred tokens. -/
theorem parse_stops {source : String} {tokens : List Token} {error : ParseError}
    (found : Source.tokens source = .ok tokens) (short : tokens.length ≤ 101)
    (h : Expr.parse .standard tokens = .error error) (code : error.code ≠ "RB-P005") :
    ∃ i token, tokens[i]? = some token ∧ token.position = error.position ∧
      (∀ j other, tokens[j]? = some other → other.position = error.position → j = i) ∧
        ∃ more tree, Expr.parse .standard (tokens.take i ++ more) = .ok tree := by
  have scanned := tokens_eq_ok_iff.1 found
  obtain ⟨inner, htokens, spelt, tokenizes⟩ := Token.marked_of_scan scanned
  have noEnd := tokenizes.isEnd_eq_false
  have light := weight_le (Token.scans_of_scan scanned).lexed
  have length : (Token.spelt tokens).length = inner.length :=
    (congrArg List.length spelt).trans (List.length_map _)
  rw [htokens, List.length_append, List.length_singleton] at short
  have limit : maxDepth = 256 := rfl
  obtain ⟨front, halted, split, place, completed⟩ :=
    Expr.exists_completion (by decide) h code (by omega) (by omega)
  rw [htokens, List.takeWhile_append_of_pos (by simpa using noEnd),
    List.takeWhile_cons_of_neg (by simp [Token.isEnd]), List.append_nil] at split
  rw [split, List.append_assoc] at htokens
  obtain ⟨token, blamed, position⟩ : ∃ token,
      (halted ++ [⟨.endOfInput, .after source.toList, ""⟩])[0]? = some token ∧
        token.position = error.position := by
    cases halted with
    | nil =>
      refine ⟨_, rfl, ?_⟩
      rw [place, Parser.Setting.current, htokens, List.nil_append]
      rw [List.append_nil] at split
      exact (endPosition_concat (split ▸ noEnd) rfl).symm
    | cons token rest => exact ⟨token, rfl, place.symm⟩
  have stands : tokens[front.length]? = some token := by
    rw [htokens, List.getElem?_append_right (Nat.le_refl _), Nat.sub_self]
    exact blamed
  refine ⟨front.length, token, stands, position, fun j other there same => ?_, ?_⟩
  · exact Token.eq_of_position_eq scanned stands there (same.trans position.symm)
  · rw [htokens, List.take_left]
    exact completed

/-- An argument where a comma should stand: before it the call may still go on. -/
theorem parse_stops_argument : ∃ tokens error,
    Source.tokens "f(1 x)" = .ok tokens ∧ tokens.length = 6 ∧
      Expr.parse .standard tokens = .error error ∧ error.code = "RB-P004" ∧
        error.position = ⟨1, 4⟩ ∧
          ∃ more tree, Expr.parse .standard (tokens.take 3 ++ more) = .ok tree := by
  have found : Source.tokens "f(1 x)" = .ok [⟨.identifier, ⟨1, 0⟩, "f"⟩,
      ⟨.bracket, ⟨1, 1⟩, "("⟩, ⟨.number, ⟨1, 2⟩, "1"⟩, ⟨.identifier, ⟨1, 4⟩, "x"⟩,
      ⟨.bracket, ⟨1, 5⟩, ")"⟩, ⟨.endOfInput, ⟨1, 6⟩, ""⟩] := by
    with_unfolding_all rfl
  have refused : Expr.parse .standard [⟨.identifier, ⟨1, 0⟩, "f"⟩,
      ⟨.bracket, ⟨1, 1⟩, "("⟩, ⟨.number, ⟨1, 2⟩, "1"⟩, ⟨.identifier, ⟨1, 4⟩, "x"⟩,
      ⟨.bracket, ⟨1, 5⟩, ")"⟩, ⟨.endOfInput, ⟨1, 6⟩, ""⟩] =
        .error ⟨⟨1, 4⟩, .expectedComma .arguments "'x'"⟩ := by
    with_unfolding_all rfl
  obtain ⟨i, _, -, -, alone, completed⟩ := parse_stops found (by decide) refused (by decide)
  obtain rfl := alone 3 _ rfl rfl
  exact ⟨_, _, found, rfl, refused, rfl, rfl, completed⟩

end Source

end ExprMachine
