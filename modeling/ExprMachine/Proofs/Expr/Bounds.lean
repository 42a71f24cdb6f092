/-
  ExprMachine.Proofs.Expr.Bounds

  The cursor follows the readers of lists, second half: operands, and expressions by
  induction on the levels that may still nest. So reading with a cursor ends, without a
  fault and as the parser of lists does, and all that happens on the way is in bounds.
-/
import ExprMachine.Proofs.Expr.Following

namespace ExprMachine

theorem Grammar.standard_hasRoom : standard.HasRoom := by
  intro symbol info known _
  have all : ∀ entry ∈ standard.binaryTable, entry.2.priority < topPriority := by decide
  obtain ⟨before, after, table_eq, -⟩ := List.lookup_eq_some_iff.1 known
  exact all (symbol, info) (by simp [table_eq])

namespace Cursor

open ExprMachine.Parser

section Readers

variable {input : Input} {words tokens : List Token} {mark : Token} {levels fuel : Nat}
  {state : State} {operand : Reader}

section Operands

variable (laid : Laid input words mark) (follows : Follows input words levels operand)
include laid follows

-- ============================================================================
-- Operands
-- ============================================================================

/-- The limit is met by both, or the deeper tree takes the parts after it. -/
theorem limited_or_parts (parsed : Parsed tokens) {depth : Nat} (place : Position)
    (stands : Stands input words levels parsed.rest state) (depth_le : depth ≤ maxDepth)
    (depth_eq : parsed.depth = depth + 1) (expr_depth : parsed.depth = parsed.expr.depth)
    (enough : 4 * levels + tokens.length + 2 < fuel) :
    (limited tokens place parsed = .ok parsed ∧
      Answers input words levels
        (do reader input fuel (.parts parsed.expr (← deeper depth place))) state
        ((withParts (input.setting mark) operand parsed).map Parsed.answer)) ∨
    ∃ error, limited tokens place parsed = .error error ∧
      Answers input words levels
        (do reader input fuel (.parts parsed.expr (← deeper depth place))) state
        (.error error) := by
  have fewer := parsed.rest_lt
  rcases limited_or_deeper stands depth_le depth_eq with ⟨within, deep⟩ | ⟨error, refused, deep⟩
  · have measured := limited_measured within expr_depth
    exact .inl ⟨within, deep.bind fun _ stands =>
      parts_answers laid follows parsed measured (by omega) stands⟩
  · exact .inr ⟨error, refused, deep.bind_refusal⟩

theorem operator_answers {token : Token} (isOperator : token.kind = .operator)
    (enough : 4 * levels + tokens.length + 4 < fuel)
    (stands : Stands input words levels (token :: tokens) state) :
    Answers input words levels (reader input fuel .primary) state
      ((Parser.primary (input.setting mark) operand (token :: tokens)).map Parsed.answer) := by
  refine .of_body enough fun fuel enough => ?_
  rw [body]
  unfold Parser.primary
  dsimp only
  refine (look_answers laid stands).bind fun _ seen => ?_
  rw [List.headD_cons, isOperator, Input.setting_grammar]
  dsimp only
  cases input.grammar.unary? token.value with
  | none => exact .refusal rfl seen.inBounds
  | some info =>
    dsimp only
    refine (advance_answers laid seen).bind fun _ moved => ?_
    have read := follows.answers info.priority (show _ < fuel by omega) moved
    cases hinner : operand info.priority tokens with
    | error error =>
      rw [hinner] at read
      exact read.bind_refusal
    | ok inner =>
      rw [hinner] at read
      have measured := follows.measured _ _ _ hinner
      have fewer := Nat.lt_succ_of_lt inner.rest_lt
      refine read.bind fun _ stands => ?_
      dsimp only
      rcases limited_or_parts laid follows
          (⟨.unary token.value inner.expr, _, inner.rest, fewer⟩ : Parsed (token :: tokens))
          token.position stands measured.depth_le rfl (by simp only [Expr.depth, measured.depth_eq])
          (show _ < fuel by rw [List.length_cons]; omega)
        with ⟨within, deep⟩ | ⟨error, refused, deep⟩
      · rw [within]
        exact deep
      · rw [refused]
        exact deep

theorem parenthesised_answers {opened : Token} (isBracket : opened.kind = .bracket)
    (opens : opened.value = "(") (enough : 4 * levels + tokens.length + 4 < fuel)
    (stands : Stands input words levels (opened :: tokens) state) :
    Answers input words levels (reader input fuel .primary) state
      ((parenthesised (input.setting mark) operand opened tokens).map Parsed.answer) := by
  refine .of_body enough fun fuel enough => ?_
  rw [body]
  unfold parenthesised
  refine (look_answers laid stands).bind fun _ seen => ?_
  rw [List.headD_cons, isBracket]
  dsimp only
  rw [if_pos opens]
  refine (advance_answers laid seen).bind fun _ moved => ?_
  have read := follows.answers 0 (show _ < fuel by omega) moved
  cases hinner : operand 0 tokens with
  | error error =>
    rw [hinner] at read
    exact read.bind_refusal
  | ok inner =>
    rw [hinner] at read
    have measured := follows.measured _ _ _ hinner
    refine read.bind fun final stands => ?_
    have closing : Answers input words levels _ final (passed opened.position inner.rest) :=
      close_answers laid opened.position stands
    dsimp only
    split
    · rename_i hrest
      rw [hrest] at closing
      exact closing.bind_refusal
    · rename_i token after hrest
      rw [hrest, passed] at closing
      split
      · rename_i closes
        rw [if_pos closes] at closing
        refine closing.bind fun _ stands => ?_
        have fewer := inner.rest_lt
        rw [hrest, List.length_cons] at fewer
        exact parts_answers laid follows ⟨_, _, after, _⟩ ⟨measured.depth_eq, measured.depth_le⟩
          (by dsimp only; omega) stands
      · rename_i missing
        rw [if_neg missing] at closing
        exact closing.bind_refusal

theorem bracket_answers {token : Token} (isBracket : token.kind = .bracket)
    (enough : 4 * levels + tokens.length + 4 < fuel)
    (stands : Stands input words levels (token :: tokens) state) :
    Answers input words levels (reader input fuel .primary) state
      ((Parser.primary (input.setting mark) operand (token :: tokens)).map Parsed.answer) := by
  unfold Parser.primary
  dsimp only
  rw [isBracket]
  dsimp only
  by_cases parenthesis : token.value = "("
  · rw [if_pos parenthesis]
    exact parenthesised_answers laid follows isBracket parenthesis enough stands
  rw [if_neg parenthesis]
  refine .of_body enough fun fuel enough => ?_
  rw [body]
  refine (look_answers laid stands).bind fun _ seen => ?_
  rw [List.headD_cons, isBracket]
  dsimp only
  rw [if_neg parenthesis]
  by_cases isList : token.value = "["
  · rw [if_pos isList, if_pos isList]
    refine (advance_answers laid seen).bind fun _ moved => ?_
    have read :=
      sequence_answers laid follows .items token.position (show _ < fuel by omega) moved
    cases hitems : Parser.sequence (input.setting mark) operand .items token.position tokens with
    | error error =>
      rw [hitems] at read
      exact read.bind_refusal
    | ok items =>
      rw [hitems] at read
      have measured := sequence_measured follows.measured hitems
      have fewer := Nat.lt_succ_of_lt items.rest_lt
      refine read.bind fun _ stands => ?_
      dsimp only
      rcases limited_or_parts laid follows
          (⟨.list items.exprs, _, items.rest, fewer⟩ : Parsed (token :: tokens))
          token.position stands measured.depth_le rfl (by simp only [Expr.depth, measured.depth_eq])
          (show _ < fuel by rw [List.length_cons]; omega)
        with ⟨within, deep⟩ | ⟨error, refused, deep⟩
      · rw [within]
        exact deep
      · rw [refused]
        exact deep
  · rw [if_neg isList, if_neg isList]
    exact .refusal rfl seen.inBounds

theorem word_answers {word : Token} (isWord : word.kind = .identifier)
    (enough : 4 * levels + tokens.length + 4 < fuel)
    (stands : Stands input words levels (word :: tokens) state) :
    Answers input words levels (reader input fuel .primary) state
      ((wordOperand (input.setting mark) operand word tokens).map Parsed.answer) := by
  refine .of_body enough fun fuel enough => ?_
  rw [body, wordOperand]
  refine (look_answers laid stands).bind fun _ seen => ?_
  rw [List.headD_cons, isWord]
  refine (advance_answers laid seen).bind fun _ moved => ?_
  by_cases isTrue : word.value = "true"
  · rw [if_pos isTrue, if_pos isTrue]
    exact .pure moved _
  rw [if_neg isTrue, if_neg isTrue]
  by_cases isFalse : word.value = "false"
  · rw [if_pos isFalse, if_pos isFalse]
    exact .pure moved _
  rw [if_neg isFalse, if_neg isFalse]
  by_cases isNil : word.value = "nil"
  · rw [if_pos isNil, if_pos isNil]
    exact .pure moved _
  rw [if_neg isNil, if_neg isNil]
  have read := arguments_answers laid follows (show _ < fuel by omega) moved
  cases harguments : Parser.arguments? (input.setting mark) operand tokens with
  | error error =>
    rw [harguments] at read
    exact read.bind_refusal
  | ok found =>
    rw [harguments] at read
    refine read.bind fun _ stands => ?_
    cases found with
    | none =>
      exact parts_answers laid follows ⟨_, _, tokens, _⟩ (.leaf rfl rfl) (by dsimp only; omega)
        stands
    | some arguments =>
      have measured := arguments_measured follows.measured harguments
      have fewer := Nat.lt_succ_of_lt arguments.rest_lt
      dsimp only
      rcases limited_or_parts laid follows
          (⟨.call word.value arguments.exprs, _, arguments.rest, fewer⟩ : Parsed (word :: tokens))
          word.position stands measured.depth_le rfl (by simp only [Expr.depth, measured.depth_eq])
          (show _ < fuel by rw [List.length_cons]; omega)
        with ⟨within, deep⟩ | ⟨error, refused, deep⟩
      · rw [within]
        exact deep
      · rw [refused]
        exact deep

omit follows in
theorem literal_answers {token : Token} (isNumber : token.kind = .number) (enough : 0 < fuel)
    (stands : Stands input words levels (token :: tokens) state) :
    Answers input words levels (reader input fuel .primary) state
      ((Parser.primary (input.setting mark) operand (token :: tokens)).map Parsed.answer) := by
  refine .of_body enough fun fuel enough => ?_
  rw [body]
  unfold Parser.primary
  dsimp only
  refine (look_answers laid stands).bind fun _ seen => ?_
  rw [List.headD_cons, isNumber]
  dsimp only
  refine (advance_answers laid seen).bind fun _ moved => ?_
  have read := number_answers moved token
  cases hnumber : Expr.ofNumber token.value with
  | error cause =>
    rw [hnumber] at read
    exact read.bind_refusal
  | ok literal =>
    rw [hnumber] at read
    exact read.bind fun _ stands => .pure stands _

theorem primary_answers (enough : 4 * levels + tokens.length + 3 < fuel)
    (stands : Stands input words levels tokens state) :
    Answers input words levels (reader input fuel .primary) state
      ((Parser.primary (input.setting mark) operand tokens).map Parsed.answer) := by
  cases tokens with
  | nil =>
    have refused : Parser.primary (input.setting mark) operand [] = .error (unexpected mark) :=
      congrArg Except.error laid.unexpected_eq
    refine .of_body enough fun fuel enough => ?_
    rw [body, refused]
    refine (look_answers laid stands).bind fun _ seen => ?_
    rw [List.headD_nil, laid.mark_kind]
    exact .refusal rfl seen.inBounds
  | cons token rest =>
    have more : 4 * levels + rest.length + 4 < fuel := by
      rw [List.length_cons] at enough
      omega
    cases hkind : token.kind with
    | operator => exact operator_answers laid follows hkind more stands
    | bracket => exact bracket_answers laid follows hkind more stands
    | number => exact literal_answers laid hkind (Nat.zero_lt_of_lt enough) stands
    | identifier =>
      unfold Parser.primary
      dsimp only
      rw [hkind]
      exact word_answers laid follows hkind more stands
    | text =>
      refine .of_body enough fun fuel enough => ?_
      rw [body]
      unfold Parser.primary
      dsimp only
      refine (look_answers laid stands).bind fun _ seen => ?_
      rw [List.headD_cons, hkind]
      exact (advance_answers laid seen).bind fun _ moved => .pure moved _
    | endOfInput =>
      -- A mark of the end is no word.
      have isWord := stands.isEnd_eq_false laid
      rw [Token.isEnd, hkind] at isWord
      cases isWord

end Operands

-- ============================================================================
-- Expressions
-- ============================================================================

/-- Open calls and levels that may still nest add up to the limit, so that both run out of
    levels at once. -/
theorem expression_follows (laid : Laid input words mark) (room : input.grammar.HasRoom)
    (levels : Nat) :
    Follows input words levels (Parser.expression (input.setting mark) levels) := by
  induction levels with
  | zero =>
    refine ⟨expression_measured _ _, fun least _ tokens state enough stands => ?_⟩
    refine .of_body enough fun fuel enough => ?_
    have nesting := stands.nesting
    rw [body, Parser.expression, laid.current_position]
    refine .get_bind ?_
    rw [if_pos (by omega)]
    exact (look_answers laid stands).bind fun _ seen => refuse_answers seen _ _
  | succ levels follows =>
    refine ⟨expression_measured _ _, fun least _ tokens state enough stands => ?_⟩
    refine .of_body enough fun fuel enough => ?_
    have nesting := stands.nesting
    rw [body, Parser.expression]
    refine .get_bind ?_
    rw [if_neg (by omega)]
    refine (openCall_answers stands).bind fun _ opened => ?_
    have read := primary_answers laid follows (show _ < fuel by omega) opened
    cases hleft : Parser.primary (input.setting mark)
        (Parser.expression (input.setting mark) levels) tokens with
    | error error =>
      rw [hleft] at read
      exact read.bind_refusal
    | ok left =>
      rw [hleft] at read
      have measured := primary_measured follows.measured hleft
      refine read.bind fun _ stands => ?_
      have fewer := left.rest_lt
      have chain :=
        infixes_answers laid follows room least left measured (show _ < fuel by omega) stands
      dsimp only
      cases hchain : growFrom (Parser.infixOperand? (input.setting mark)
          (Parser.expression (input.setting mark) levels) least) left with
      | error error =>
        rw [hchain] at chain
        exact chain.bind_refusal
      | ok whole =>
        rw [hchain] at chain
        refine chain.bind fun _ stands => ?_
        exact (closeCall_answers stands (by omega)).bind fun _ closed => .pure closed _

theorem whole_answers (laid : Laid input words mark) (room : input.grammar.HasRoom)
    (enough : 4 * levels + tokens.length < fuel)
    (stands : Stands input words levels tokens state) :
    Answers input words levels (whole input fuel) state
      (((Parser.expression (input.setting mark) levels 0 tokens).bind Expr.alone).map (·, [])) := by
  have read := (expression_follows laid room levels).answers 0 enough stands
  cases hparsed : Parser.expression (input.setting mark) levels 0 tokens with
  | error error =>
    rw [hparsed] at read
    exact read.bind_refusal
  | ok parsed =>
    rw [hparsed] at read
    refine read.bind fun final (stands : Stands input words levels parsed.rest final) => ?_
    refine (look_answers laid stands).bind fun _ seen => ?_
    dsimp only [Except.bind, Expr.alone]
    cases hrest : parsed.rest with
    | nil =>
      rw [hrest] at seen
      rw [List.headD_nil, laid.mark_end]
      exact .pure seen _
    | cons token after =>
      rw [hrest] at seen
      rw [List.headD_cons, seen.isEnd_eq_false laid]
      exact refuse_answers seen _ _

end Readers

-- ============================================================================
-- Parsing
-- ============================================================================

/-- At most a mark of the end is added. -/
theorem exists_marked_eq (tokens : List Token) : ∃ added, marked tokens = tokens ++ added := by
  unfold marked
  split
  · exact ⟨[], (List.append_nil tokens).symm⟩
  · exact ⟨_, rfl⟩

/-- There is a mark of the end, and the first one is where errors at the end are reported. -/
theorem exists_laid_marked (grammar : Grammar) (tokens : List Token) :
    ∃ mark, Laid ⟨grammar, marked tokens⟩ (tokens.takeWhile (!·.isEnd)) mark ∧
      mark.position = endPosition tokens := by
  unfold endPosition
  cases hfind : tokens.find? Token.isEnd with
  | some mark =>
    obtain ⟨mark_end, words, beyond, rfl, words_open⟩ := List.find?_eq_some_iff_append.1 hfind
    obtain ⟨added, hmarked⟩ := exists_marked_eq (words ++ mark :: beyond)
    have before : (words ++ mark :: beyond).takeWhile (!·.isEnd) = words := by
      rw [List.takeWhile_append_of_pos words_open, List.takeWhile_cons_of_neg (by simp [mark_end]),
        List.append_nil]
    rw [before]
    refine ⟨mark, ⟨⟨beyond ++ added, ?_⟩, ?_, mark_end⟩, rfl⟩
    · rw [hmarked, List.append_assoc, List.cons_append]
    · intro word hword
      simpa using words_open word hword
  | none =>
    have words_open : ∀ word ∈ tokens, word.isEnd = false := by
      intro word hword
      simpa using List.find?_eq_none.1 hfind word hword
    have unmarked : tokens.getLast?.any Token.isEnd = false := by
      cases hlast : tokens.getLast? with
      | none => rfl
      | some last => exact words_open last (List.mem_of_getLast? hlast)
    have before : (tokens ++ []).takeWhile (!·.isEnd) = tokens ++ [] :=
      List.takeWhile_append_of_pos (by simpa using words_open)
    have hmarked := marked.eq_def tokens
    rw [unmarked, if_neg Bool.false_ne_true] at hmarked
    rw [List.append_nil] at before
    rw [before]
    exact ⟨_, ⟨⟨[], hmarked⟩, words_open, rfl⟩, rfl⟩

/-- Reading with a cursor ends, and in bounds, whatever the tokens are: fuel for four calls a
    level that may nest and one a token suffices, and with more the run is the same. It gives
    the tree or the error that `Expr.parse` gives, and no fault. On the way every look is at a
    token of the list, and none, nor the cursor itself, is behind the first mark of the end;
    the counter of open calls stays within the limit; every text is cut where it can be; and
    every round of a loop over operators, parts or items takes at least one token. -/
theorem parse_inBounds (grammar : Grammar) (tokens : List Token) (room : grammar.HasRoom) :
    ∃ final,
      (∀ fuel, 4 * maxDepth + tokens.length < fuel → parse grammar tokens fuel =
        some ((Expr.parse grammar tokens).mapError .refused, final)) ∧
      ∀ event ∈ final.events, event.InBounds (marked tokens) := by
  obtain ⟨mark, laid, position_eq⟩ := exists_laid_marked grammar tokens
  have start : Stands ⟨grammar, marked tokens⟩ (tokens.takeWhile (!·.isEnd)) maxDepth
      (tokens.takeWhile (!·.isEnd)) ⟨0, 0, []⟩ :=
    ⟨rfl, Nat.zero_le _, Nat.zero_add _, List.forall_mem_nil _⟩
  have words_le := (tokens.takeWhile_sublist (!·.isEnd)).length_le
  have answers := whole_answers laid room
    (show _ < 4 * maxDepth + tokens.length + 1 by omega) start
  rw [Input.setting, position_eq, ← Expr.parse_eq_bind] at answers
  cases hparse : Expr.parse grammar tokens with
  | ok tree =>
    rw [hparse] at answers
    cases answers with
    | value runs stands => exact ⟨_, fun fuel enough => parse_of_le enough runs, stands.inBounds⟩
  | error error =>
    rw [hparse] at answers
    cases answers with
    | refusal runs inBounds => exact ⟨_, fun fuel enough => parse_of_le enough runs, inBounds⟩

/-- A lone point after a name, with a mark of the end in the middle and none at the end: the
    number is cut behind its point, and refused. -/
theorem parse_inBounds_point :
    Grammar.standard.HasRoom ∧ ∃ final,
      (∀ fuel, 4 * maxDepth + 4 < fuel →
        parse .standard [⟨.identifier, .start, "a"⟩, ⟨.number, .start, "."⟩,
            ⟨.endOfInput, .start, ""⟩, ⟨.text, .start, ""⟩] fuel =
          some (.error (.refused ⟨.start, .expectedIndex "."⟩), final)) ∧
      ∀ event ∈ final.events, event.InBounds (marked [⟨.identifier, .start, "a"⟩,
        ⟨.number, .start, "."⟩, ⟨.endOfInput, .start, ""⟩, ⟨.text, .start, ""⟩]) := by
  have refused : Expr.parse .standard [⟨.identifier, .start, "a"⟩, ⟨.number, .start, "."⟩,
      ⟨.endOfInput, .start, ""⟩, ⟨.text, .start, ""⟩] = .error ⟨.start, .expectedIndex "."⟩ := by
    with_unfolding_all rfl
  refine ⟨Grammar.standard_hasRoom, ?_⟩
  have bounded := parse_inBounds .standard [⟨.identifier, .start, "a"⟩, ⟨.number, .start, "."⟩,
    ⟨.endOfInput, .start, ""⟩, ⟨.text, .start, ""⟩] Grammar.standard_hasRoom
  rw [refused] at bounded
  exact bounded

-- What happens is written down: reading `a - b` takes a round, of two tokens.
example : (parse .standard [⟨.identifier, .start, "a"⟩, ⟨.operator, .start, "-"⟩,
      ⟨.identifier, .start, "b"⟩] 9).map (·.2.events.count (.round 1 3)) = some 1 := by
  cbv

-- An operator without room above its priority has no right operand.
example : (parse (Grammar.empty.withBinary "-" 255 .left) [⟨.text, .start, "a"⟩,
      ⟨.operator, .start, "-"⟩, ⟨.text, .start, "b"⟩] 9).map Prod.fst =
    some (.error (.faulted .overflow)) := by
  cbv

end Cursor

end ExprMachine
