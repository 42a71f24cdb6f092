/-
  ExprMachine.Proofs.Expr.Following

  The cursor follows the readers of lists, first half: sequences, and loops that let a tree
  grow. What a reader gives for the words before the cursor is what the cursor gives. A
  reader that succeeds leaves fewer words than it was given, so that every round of a loop
  takes some, and the loop ends because its reader does.
-/
import ExprMachine.Proofs.Expr.Depth
import ExprMachine.Proofs.Expr.Walking

namespace ExprMachine

namespace Parser

/-- What was read, with its depth, and the tokens that are left. -/
def Parsed.answer {tokens : List Token} (parsed : Parsed tokens) : (Expr × Nat) × List Token :=
  ((parsed.expr, parsed.depth), parsed.rest)

/-- What was read, with its depth, and the tokens that are left. -/
def ParsedSequence.answer {tokens : List Token} (parsed : ParsedSequence tokens) :
    (List Expr × Nat) × List Token :=
  ((parsed.exprs, parsed.depth), parsed.rest)

end Parser

namespace Cursor

open ExprMachine.Parser

/-- What was read, if anything was; else all tokens are left. -/
def ifAny {α β : Type} (answer : β → α × List Token) (tokens : List Token) :
    Option β → Option α × List Token
  | none => (none, tokens)
  | some read => (some (answer read).1, (answer read).2)

/-- What stays the same while the words before a mark of the end are read. -/
def Input.setting (input : Input) (mark : Token) : Setting :=
  ⟨input.grammar, mark.position⟩

@[simp] theorem Input.setting_grammar (input : Input) (mark : Token) :
    (input.setting mark).grammar = input.grammar := rfl

/-- The cursor reads expressions as the reader does, from wherever it stands. Fuel for four
    calls a level and one a word suffices. -/
structure Follows (input : Input) (words : List Token) (levels : Nat) (operand : Reader) :
    Prop where
  measured : operand.Measured
  answers : ∀ least {fuel tokens state}, 4 * levels + tokens.length < fuel →
    Stands input words levels tokens state →
      Answers input words levels (reader input fuel (.expression least)) state
        ((operand least tokens).map Parsed.answer)

section Readers

variable {input : Input} {words tokens all : List Token} {mark : Token} {levels fuel : Nat}
  {state : State} {operand : Reader}

-- ============================================================================
-- The next token
-- ============================================================================

section Mark

variable (laid : Laid input words mark)
include laid

/-- The cursor sees the token that a reader takes for the next one, up to what a mark of the
    end says. -/
theorem Laid.current_cases (tokens : List Token) :
    (input.setting mark).current tokens = tokens.headD mark ∨
      (input.setting mark).current tokens = { mark with value := "" } ∧
        tokens.headD mark = mark := by
  cases tokens with
  | nil =>
    refine .inr ⟨?_, rfl⟩
    rw [Setting.current, ← laid.mark_kind]
    rfl
  | cons token rest => exact .inl rfl

theorem Laid.current_position (tokens : List Token) :
    ((input.setting mark).current tokens).position = (tokens.headD mark).position := by
  rcases laid.current_cases tokens with h | ⟨h, h'⟩
  · rw [h]
  · rw [h, h']

theorem Laid.current_isOperator (tokens : List Token) (symbol : String) :
    ((input.setting mark).current tokens).isOperator symbol =
      (tokens.headD mark).isOperator symbol := by
  rcases laid.current_cases tokens with h | ⟨h, h'⟩
  · rw [h]
  · rw [h, h', laid.mark_isOperator, Token.isOperator, laid.mark_kind]
    rfl

theorem Laid.current_isBracket (tokens : List Token) (bracket : String) :
    ((input.setting mark).current tokens).isBracket bracket =
      (tokens.headD mark).isBracket bracket := by
  rcases laid.current_cases tokens with h | ⟨h, h'⟩
  · rw [h]
  · rw [h, h', laid.mark_isBracket, Token.isBracket, laid.mark_kind]
    rfl

theorem Laid.current_description (tokens : List Token) :
    ((input.setting mark).current tokens).description = (tokens.headD mark).description := by
  rcases laid.current_cases tokens with h | ⟨h, h'⟩
  · rw [h]
  · rw [h, h', Token.description, Token.description, laid.mark_kind]

theorem Laid.unexpected_eq :
    unexpected ((input.setting mark).current []) = unexpected mark := by
  unfold unexpected
  rw [laid.mark_end]
  rfl

end Mark

-- ============================================================================
-- Trees within the limit
-- ============================================================================

/-- The limit is met by both, or by neither. -/
theorem limited_or_deeper {parsed : Parsed tokens} {depth : Nat} {place : Position}
    (stands : Stands input words levels parsed.rest state) (depth_le : depth ≤ maxDepth)
    (depth_eq : parsed.depth = depth + 1) :
    (limited tokens place parsed = .ok parsed ∧
      Answers input words levels (deeper depth place) state (.ok (parsed.depth, parsed.rest))) ∨
    ∃ error, limited tokens place parsed = .error error ∧
      Answers input words levels (deeper depth place) state (.error error) := by
  have deep := deeper_answers stands place depth_le
  rw [← depth_eq] at deep
  unfold limited
  by_cases h : maxDepth < parsed.depth
  · rw [if_pos h] at deep ⊢
    exact .inr ⟨_, rfl, deep⟩
  · rw [if_neg h] at deep ⊢
    exact .inl ⟨rfl, deep⟩

/-- The same for one more piece of a tree. -/
theorem larger_answers (parsed : Parsed tokens) {depth : Nat} {place : Position}
    (stands : Stands input words levels parsed.rest state) (depth_le : depth ≤ maxDepth)
    (depth_eq : parsed.depth = depth + 1) :
    Answers input words levels (do pure (some (parsed.expr, ← deeper depth place))) state
      (((limited tokens place parsed).map some).map (ifAny Parsed.answer tokens)) := by
  rcases limited_or_deeper stands depth_le depth_eq with ⟨within, deep⟩ | ⟨error, refused, deep⟩
  · rw [within]
    exact deep.bind fun _ stands => .pure stands _
  · rw [refused]
    exact deep.bind_refusal

section Operands

variable (laid : Laid input words mark) (follows : Follows input words levels operand)
include laid follows

-- ============================================================================
-- Sequences
-- ============================================================================

/-- A round of a sequence that reads an expression goes on behind it. -/
theorem items_of_item {kind : SequenceKind} {opened : Position} {found : Array Expr}
    {depth : Nat} {item : Parsed tokens} {rest : List Token}
    {answer : Except ParseError ((List Expr × Nat) × List Token)}
    (enough : 4 * levels + tokens.length + 1 < fuel)
    (stands : Stands input words levels tokens state)
    (noComma : ¬ ((input.setting mark).current tokens).isOperator ",")
    (hitem : operand 0 tokens = .ok item) (hrest : item.rest = rest)
    (goesOn : ∀ start fuel final, start + tokens.length = words.length →
      4 * levels + tokens.length < fuel → Stands input words levels rest final →
        Answers input words levels (reader input fuel
          (.afterItem kind opened start (found.push item.expr) (max depth item.depth))) final
          answer) :
    Answers input words levels (reader input fuel (.items kind opened found depth)) state
      answer := by
  refine .of_body enough fun fuel enough => ?_
  rw [laid.current_isOperator] at noComma
  rw [body]
  refine .get_bind ((look_answers laid stands).bind fun _ seen => ?_)
  rw [if_neg noComma]
  have read := follows.answers 0 enough seen
  rw [hitem] at read
  subst hrest
  exact read.bind fun final behind => goesOn _ _ final stands.place_eq enough behind

theorem items_answers {kind : SequenceKind} {opened : Position} {found : Array Expr}
    {depth : Nat} {inside : tokens.length ≤ all.length}
    (enough : 4 * levels + tokens.length + 1 < fuel)
    (stands : Stands input words levels tokens state) :
    Answers input words levels (reader input fuel (.items kind opened found depth)) state
      ((sequenceFrom (input.setting mark) operand kind opened found depth tokens inside).map
        ParsedSequence.answer) := by
  fun_induction sequenceFrom (input.setting mark) operand kind opened found depth tokens inside
      generalizing state fuel with
  | case1 found depth tokens inside comma =>
    refine .of_body enough fun fuel enough => ?_
    rw [laid.current_isOperator] at comma
    rw [body, laid.current_position]
    refine .get_bind ((look_answers laid stands).bind fun _ seen => ?_)
    rw [if_pos comma]
    exact refuse_answers seen _ _
  | case2 found depth tokens inside noComma error hitem =>
    refine .of_body enough fun fuel enough => ?_
    rw [laid.current_isOperator] at noComma
    rw [body]
    refine .get_bind ((look_answers laid stands).bind fun _ seen => ?_)
    rw [if_neg noComma]
    have read := follows.answers 0 enough seen
    rw [hitem] at read
    exact read.bind_refusal
  | case3 found depth tokens inside noComma item hitem hrest =>
    refine items_of_item laid follows enough stands noComma hitem hrest
      fun start fuel _ _ enough stands => .of_body enough fun fuel enough => ?_
    rw [body]
    refine (look_answers laid stands).bind fun _ seen => ?_
    rw [List.headD_nil, laid.mark_isBracket, laid.mark_isOperator, laid.mark_end]
    exact refuse_answers seen _ _
  | case4 found depth tokens inside noComma item hitem token after hrest after_lt closes =>
    refine items_of_item laid follows enough stands noComma hitem hrest
      fun start fuel _ place_eq enough stands => .of_body enough fun fuel enough => ?_
    rw [body]
    refine (look_answers laid stands).bind fun _ seen => ?_
    rw [List.headD_cons, if_pos closes]
    refine (advance_answers laid seen).bind fun _ moved => ?_
    exact (endRound_answers moved (by omega)).bind fun _ ended => .pure ended _
  | case5 found depth tokens inside noComma item hitem token after hrest after_lt open_ comma
      trailing =>
    refine items_of_item laid follows enough stands noComma hitem hrest
      fun start fuel _ _ enough stands => .of_body enough fun fuel enough => ?_
    rw [laid.current_isBracket] at trailing
    rw [body, laid.current_position]
    refine (look_answers laid stands).bind fun _ seen => ?_
    rw [List.headD_cons, if_neg open_, if_pos comma]
    refine (advance_answers laid seen).bind fun _ moved => ?_
    refine (look_answers laid moved).bind fun _ seen => ?_
    rw [if_pos trailing]
    exact refuse_answers seen _ _
  | case6 found depth tokens inside noComma item hitem token after hrest after_lt open_ comma
      more ih =>
    refine items_of_item laid follows enough stands noComma hitem hrest
      fun start fuel _ place_eq enough stands => .of_body enough fun fuel enough => ?_
    rw [laid.current_isBracket] at more
    rw [body]
    refine (look_answers laid stands).bind fun _ seen => ?_
    rw [List.headD_cons, if_neg open_, if_pos comma]
    refine (advance_answers laid seen).bind fun _ moved => ?_
    refine (look_answers laid moved).bind fun _ seen => ?_
    rw [if_neg more]
    exact (endRound_answers seen (by omega)).bind fun _ ended => ih (by omega) ended
  | case7 found depth tokens inside noComma item hitem token after hrest after_lt open_ missing =>
    refine items_of_item laid follows enough stands noComma hitem hrest
      fun start fuel _ _ enough stands => .of_body enough fun fuel enough => ?_
    rw [body]
    refine (look_answers laid stands).bind fun _ seen => ?_
    rw [List.headD_cons, if_neg open_, if_neg missing, seen.isEnd_eq_false laid]
    exact refuse_answers seen _ _

theorem sequence_answers (kind : SequenceKind) (opened : Position)
    (enough : 4 * levels + tokens.length + 2 < fuel)
    (stands : Stands input words levels tokens state) :
    Answers input words levels (reader input fuel (.sequence kind opened)) state
      ((Parser.sequence (input.setting mark) operand kind opened tokens).map
        ParsedSequence.answer) := by
  refine .of_body enough fun fuel enough => ?_
  rw [body]
  refine (look_answers laid stands).bind fun _ seen => ?_
  cases tokens with
  | nil =>
    rw [List.headD_nil, laid.mark_isBracket]
    exact items_answers laid follows enough seen
  | cons token after =>
    rw [List.headD_cons, Parser.sequence]
    split
    · exact (advance_answers laid seen).bind fun _ moved => .pure moved _
    · exact items_answers laid follows enough seen

theorem arguments_answers (enough : 4 * levels + tokens.length + 2 < fuel)
    (stands : Stands input words levels tokens state) :
    Answers input words levels (reader input fuel .arguments) state
      ((Parser.arguments? (input.setting mark) operand tokens).map
        (ifAny ParsedSequence.answer tokens)) := by
  refine .of_body enough fun fuel enough => ?_
  rw [body]
  refine (look_answers laid stands).bind fun _ seen => ?_
  cases tokens with
  | nil =>
    rw [List.headD_nil, laid.mark_isBracket]
    exact .pure seen _
  | cons token after =>
    rw [List.headD_cons, Parser.arguments?]
    split
    · refine (look_answers laid seen).bind fun _ seen => ?_
      refine (advance_answers laid seen).bind fun _ moved => ?_
      have read := sequence_answers laid follows .arguments token.position enough moved
      cases harguments : Parser.sequence (input.setting mark) operand .arguments token.position
          after with
      | error error =>
        rw [harguments] at read
        exact read.bind_refusal
      | ok arguments =>
        rw [harguments] at read
        exact read.bind fun _ stands => .pure stands _
    · exact .pure seen _

-- ============================================================================
-- Pieces of trees
-- ============================================================================

theorem infixOperand_answers (room : input.grammar.HasRoom) (least : Nat) (left : Expr)
    {depth : Nat} (depth_le : depth ≤ maxDepth) (enough : 4 * levels + tokens.length < fuel)
    (stands : Stands input words levels tokens state) :
    Answers input words levels (reader input fuel (.infixOperand least left depth)) state
      ((Parser.infixOperand? (input.setting mark) operand least left depth tokens).map
        (ifAny Parsed.answer tokens)) := by
  refine .of_body enough fun fuel enough => ?_
  rw [body]
  refine (look_answers laid stands).bind fun _ seen => ?_
  cases tokens with
  | nil =>
    rw [List.headD_nil, laid.mark_kind, if_neg (by decide)]
    exact .pure seen _
  | cons token after =>
    rw [List.headD_cons, Parser.infixOperand?, Input.setting_grammar]
    by_cases isOperator : token.kind = .operator
    · rw [if_pos isOperator, if_pos isOperator]
      cases known : input.grammar.binary? token.value with
      | none => exact .pure seen _
      | some info =>
        dsimp only
        by_cases loose : info.priority < least
        · rw [if_pos loose, if_pos loose]
          exact .pure seen _
        rw [if_neg loose, if_neg loose]
        refine (advance_answers laid seen).bind fun _ moved => ?_
        refine (rightBound_answers room known moved).bind fun _ moved => ?_
        have read := follows.answers info.rightBound enough moved
        cases hright : operand info.rightBound after with
        | error error =>
          rw [hright] at read
          exact read.bind_refusal
        | ok right =>
          rw [hright] at read
          have right_le := (follows.measured _ _ _ hright).depth_le
          refine read.bind fun _ stands => ?_
          exact larger_answers ⟨_, _, right.rest, _⟩ stands (Nat.max_le.2 ⟨depth_le, right_le⟩) rfl
    · rw [if_neg isOperator, if_neg isOperator]
      exact .pure seen _

/-- After a point a name is read, and its arguments. -/
theorem part_answers_of_point {depth : Nat} {left : Expr} {point : Token}
    (isPoint : point.isOperator ".") (depth_le : depth ≤ maxDepth)
    (enough : 4 * levels + (point :: tokens).length + 2 < fuel)
    (stands : Stands input words levels (point :: tokens) state) :
    Answers input words levels (reader input fuel (.part left depth)) state
      ((Parser.part? (input.setting mark) operand left depth (point :: tokens)).map
        (ifAny Parsed.answer (point :: tokens))) := by
  refine .of_body enough fun fuel enough => ?_
  rw [body]
  unfold Parser.part?
  dsimp only
  refine (look_answers laid stands).bind fun _ seen => ?_
  rw [List.headD_cons, if_pos isPoint, if_pos isPoint]
  refine (advance_answers laid seen).bind fun _ moved => ?_
  refine (look_answers laid moved).bind fun _ seen => ?_
  cases tokens with
  | nil =>
    rw [List.headD_nil, laid.mark_kind, if_neg (by decide), laid.current_description]
    exact refuse_answers seen _ _
  | cons name after =>
    rw [List.headD_cons]
    dsimp only
    by_cases isName : name.kind = .identifier
    · rw [if_pos isName, if_pos isName]
      refine (advance_answers laid seen).bind fun _ moved => ?_
      have left_enough : 4 * levels + after.length + 2 < fuel := by
        simp only [List.length_cons] at enough
        omega
      have read := arguments_answers laid follows left_enough moved
      cases harguments : Parser.arguments? (input.setting mark) operand after with
      | error error =>
        rw [harguments] at read
        exact read.bind_refusal
      | ok found =>
        rw [harguments] at read
        refine read.bind fun _ stands => ?_
        cases found with
        | none => exact larger_answers ⟨_, _, after, _⟩ stands depth_le rfl
        | some arguments =>
          have arguments_le := (arguments_measured follows.measured harguments).depth_le
          exact larger_answers ⟨_, _, arguments.rest, _⟩ stands
            (Nat.max_le.2 ⟨depth_le, arguments_le⟩) rfl
    · rw [if_neg isName, if_neg isName]
      exact refuse_answers seen _ _

omit follows in
/-- Indexes after points are read off one token. -/
theorem part_answers_of_number {depth : Nat} {left : Expr} {token : Token}
    (noPoint : ¬ token.isOperator ".")
    (isNumber : token.kind = .number ∧ token.value.toList.head? = some '.')
    (depth_le : depth ≤ maxDepth) (enough : 0 < fuel)
    (stands : Stands input words levels (token :: tokens) state) :
    Answers input words levels (reader input fuel (.part left depth)) state
      ((Parser.part? (input.setting mark) operand left depth (token :: tokens)).map
        (ifAny Parsed.answer (token :: tokens))) := by
  refine .of_body enough fun fuel enough => ?_
  rw [body]
  unfold Parser.part?
  dsimp only
  refine (look_answers laid stands).bind fun _ seen => ?_
  rw [List.headD_cons, if_neg noPoint, if_neg noPoint, if_pos isNumber, if_pos isNumber]
  have path := indexPath_answers seen isNumber.2
  cases hpath : Expr.indexPath token.value with
  | none =>
    rw [hpath] at path
    exact path.bind_refusal
  | some indexes =>
    rw [hpath] at path
    refine path.bind fun _ stands => ?_
    have grown := indexed_answers left indexes stands token.position depth_le
    unfold limited
    dsimp only
    by_cases deep : maxDepth < depth + indexes.length
    · rw [if_pos deep] at grown ⊢
      exact grown.bind_refusal
    · rw [if_neg deep] at grown ⊢
      refine grown.bind fun _ stands => ?_
      exact (advance_answers laid stands).bind fun _ moved => .pure moved _

/-- Arguments are read after a bare name only. -/
theorem part_answers_of_other {depth : Nat} {left : Expr} {token : Token}
    (noPoint : ¬ token.isOperator ".")
    (noNumber : ¬ (token.kind = .number ∧ token.value.toList.head? = some '.'))
    (enough : 4 * levels + (token :: tokens).length + 2 < fuel)
    (stands : Stands input words levels (token :: tokens) state) :
    Answers input words levels (reader input fuel (.part left depth)) state
      ((Parser.part? (input.setting mark) operand left depth (token :: tokens)).map
        (ifAny Parsed.answer (token :: tokens))) := by
  refine .of_body enough fun fuel enough => ?_
  rw [body]
  unfold Parser.part? Parser.arguments?
  dsimp only
  refine (look_answers laid stands).bind fun _ seen => ?_
  rw [List.headD_cons, if_neg noPoint, if_neg noPoint, if_neg noNumber, if_neg noNumber]
  by_cases opens : token.isBracket "("
  · rw [if_pos opens, if_pos opens]
    cases left with
    | identifier name =>
      refine (advance_answers laid seen).bind fun _ moved => ?_
      have read := sequence_answers laid follows .arguments token.position enough moved
      cases harguments : Parser.sequence (input.setting mark) operand .arguments token.position
          tokens with
      | error error =>
        rw [harguments] at read
        exact read.bind_refusal
      | ok arguments =>
        rw [harguments] at read
        have arguments_le := (sequence_measured follows.measured harguments).depth_le
        refine read.bind fun _ stands => ?_
        exact larger_answers ⟨_, _, arguments.rest, _⟩ stands arguments_le rfl
    | _ => exact .pure seen _
  · rw [if_neg opens, if_neg opens]
    cases left with
    | _ => exact .pure seen _

theorem part_answers (left : Expr) {depth : Nat} (depth_le : depth ≤ maxDepth)
    (enough : 4 * levels + tokens.length + 2 < fuel)
    (stands : Stands input words levels tokens state) :
    Answers input words levels (reader input fuel (.part left depth)) state
      ((Parser.part? (input.setting mark) operand left depth tokens).map
        (ifAny Parsed.answer tokens)) := by
  cases tokens with
  | nil =>
    refine .of_body enough fun fuel enough => ?_
    rw [body]
    refine (look_answers laid stands).bind fun _ seen => ?_
    rw [List.headD_nil, laid.mark_isOperator, laid.mark_kind, laid.mark_isBracket]
    exact .pure seen _
  | cons token rest =>
    by_cases point : token.isOperator "."
    · exact part_answers_of_point laid follows point depth_le enough stands
    by_cases number : token.kind = .number ∧ token.value.toList.head? = some '.'
    · exact part_answers_of_number laid point number depth_le (Nat.zero_lt_of_lt enough) stands
    · exact part_answers_of_other laid follows point number enough stands

end Operands

-- ============================================================================
-- Loops over pieces
-- ============================================================================

/-- What a loop does after it has looked for one more piece. -/
def onward (loop : Expr → Nat → Run (Expr × Nat)) (start : Nat) (left : Expr) (depth : Nat) :
    Option (Expr × Nat) → Run (Expr × Nat)
  | none => pure (left, depth)
  | some (larger, depth) => do
    endRound start
    loop larger depth

/-- A loop takes tokens in each round, and ends where its reader does. A round needs no more
    fuel than the words it takes. -/
theorem loop_answers {growth : Growth} (loop : Nat → Expr → Nat → Run (Expr × Nat))
    (step : Nat → Expr → Nat → Run (Option (Expr × Nat))) (spent : Nat)
    (loop_eq : ∀ fuel left depth, loop (fuel + 1) left depth = do
      let start := (← get).place
      onward (loop fuel) start left depth (← step fuel left depth))
    (step_answers : ∀ left {fuel depth tokens state}, depth ≤ maxDepth →
      spent + tokens.length < fuel → Stands input words levels tokens state →
        Answers input words levels (step fuel left depth) state
          ((growth left depth tokens).map (ifAny Parsed.answer tokens)))
    (measured : growth.Measured) {left : Parsed all} (start : left.Measured)
    (enough : spent + left.rest.length + 1 < fuel)
    (stands : Stands input words levels left.rest state) :
    Answers input words levels (loop fuel left.expr left.depth) state
      ((growFrom growth left).map Parsed.answer) := by
  obtain ⟨fuel, rfl⟩ := Nat.exists_eq_add_one.2 (Nat.zero_lt_of_lt enough)
  rw [Nat.add_lt_add_iff_right] at enough
  fun_induction growFrom growth left generalizing state fuel with
  | case1 left error h =>
    have found := step_answers left.expr start.depth_le enough stands
    rw [h] at found
    rw [loop_eq]
    exact .get_bind found.bind_refusal
  | case2 left h =>
    have found := step_answers left.expr start.depth_le enough stands
    rw [h] at found
    rw [loop_eq]
    exact .get_bind (found.bind fun _ stands => .pure stands _)
  | case3 left larger h ih =>
    have found := step_answers left.expr start.depth_le enough stands
    rw [h] at found
    rw [start.depth_eq] at h
    have larger_measured := measured _ _ _ h
    have taken := larger.rest_lt
    have fewer : state.place + larger.rest.length < words.length :=
      Nat.lt_of_lt_of_eq (Nat.add_lt_add_left taken _) stands.place_eq
    obtain ⟨fuel, rfl⟩ := Nat.exists_eq_add_one.2 (Nat.zero_lt_of_lt enough)
    rw [loop_eq]
    refine .get_bind (found.bind fun _ stands => ?_)
    refine (endRound_answers stands fewer).bind fun _ ended => ?_
    exact ih ⟨larger_measured.depth_eq, larger_measured.depth_le⟩ ended _
      (Nat.lt_of_lt_of_le (Nat.add_lt_add_left taken _) (Nat.le_of_lt_succ enough))

section Operands

variable (laid : Laid input words mark) (follows : Follows input words levels operand)
include laid follows

theorem parts_answers (left : Parsed all) (start : left.Measured)
    (enough : 4 * levels + left.rest.length + 3 < fuel)
    (stands : Stands input words levels left.rest state) :
    Answers input words levels (reader input fuel (.parts left.expr left.depth)) state
      ((withParts (input.setting mark) operand left).map Parsed.answer) :=
  loop_answers (fun fuel left depth => reader input fuel (.parts left depth))
    (fun fuel left depth => reader input fuel (.part left depth)) (4 * levels + 2)
    (fun fuel left depth => by
      rw [reader, body]
      exact bind_congr fun _ => bind_congr fun found => by cases found <;> rfl)
    (fun left _ _ _ _ depth_le enough => part_answers laid follows left depth_le (by omega))
    (part_measured follows.measured) start (by omega) stands

theorem infixes_answers (room : input.grammar.HasRoom) (least : Nat) (left : Parsed all)
    (start : left.Measured) (enough : 4 * levels + left.rest.length + 1 < fuel)
    (stands : Stands input words levels left.rest state) :
    Answers input words levels (reader input fuel (.infixes least left.expr left.depth)) state
      ((growFrom (Parser.infixOperand? (input.setting mark) operand least) left).map
        Parsed.answer) :=
  loop_answers (fun fuel left depth => reader input fuel (.infixes least left depth))
    (fun fuel left depth => reader input fuel (.infixOperand least left depth)) (4 * levels)
    (fun fuel left depth => by
      rw [reader, body]
      exact bind_congr fun _ => bind_congr fun found => by cases found <;> rfl)
    (fun left _ _ _ _ => infixOperand_answers laid follows room least left)
    (infixOperand_measured follows.measured least) start enough stands

end Operands

end Readers

end Cursor

end ExprMachine
