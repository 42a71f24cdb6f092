/-
  ExprMachine.Proofs.Expr.Walking

  The steps of reading with a cursor. For each look, move, cut, round and count of calls one
  equation says what it gives and what it writes down. `Event.InBounds` says of everything
  that may happen that it is as it should be, `Stands` where the cursor is, and `Answers`
  what a run does from there: it ends, with a value or a refusal, and all that happens is in
  bounds. More fuel changes nothing about a run that ends.
-/
import ExprMachine.Expr.Cursor

namespace ExprMachine

/-- No infix operator that groups to the left has the highest priority, so that there is a
    higher one for its right operand. -/
def Grammar.HasRoom (grammar : Grammar) : Prop :=
  ∀ symbol info, grammar.binary? symbol = some info → info.associativity = .left →
    info.priority < topPriority

namespace Cursor

-- ============================================================================
-- Events
-- ============================================================================

/-- The place of the first mark of the end. -/
def firstEnd (tokens : List Token) : Nat :=
  tokens.findIdx Token.isEnd

/-- A look is at a token of the list, and not behind the first mark of the end; neither is
    the cursor; the open calls are no more than the limit; a text is cut where it can be; and
    a round of a loop takes tokens. -/
def Event.InBounds (tokens : List Token) : Event → Prop
  | .looked place => place < tokens.length ∧ place ≤ firstEnd tokens
  | .moved place => place ≤ firstEnd tokens
  | .counted calls => calls ≤ maxDepth
  | .cut bytes text => (Text.cut? bytes text).isSome
  | .round start stop => start < stop

/-- The state after this has happened. -/
def State.after (state : State) : Event → State
  | .moved place => { state with place, events := .moved place :: state.events }
  | .counted nesting => { state with nesting, events := .counted nesting :: state.events }
  | event => { state with events := event :: state.events }

-- ============================================================================
-- Where the cursor stands
-- ============================================================================

/-- The words that the cursor passes, and the mark of the end that it does not. -/
structure Laid (input : Input) (words : List Token) (mark : Token) : Prop where
  split : ∃ beyond, input.tokens = words ++ mark :: beyond
  words_open : ∀ word ∈ words, word.isEnd = false
  mark_end : mark.isEnd = true

/-- The cursor has these words before it, so many levels may still nest, and all that has
    happened is in bounds. -/
structure Stands (input : Input) (words : List Token) (levels : Nat) (rest : List Token)
    (state : State) : Prop where
  ahead : words.drop state.place = rest
  place_le : state.place ≤ words.length
  nesting : state.nesting + levels = maxDepth
  inBounds : ∀ event ∈ state.events, event.InBounds input.tokens

/-- From this state the run gives a value, and stands before the tokens that are left, or
    refuses the tokens. It ends without a fault, and all that happens is in bounds. -/
inductive Answers {α : Type} (input : Input) (words : List Token) (levels : Nat) (run : Run α)
    (state : State) : Except ParseError (α × List Token) → Prop where
  | value {value : α} {rest : List Token} {final : State}
      (runs : run.run.run state = some (.ok value, final))
      (stands : Stands input words levels rest final) :
      Answers input words levels run state (.ok (value, rest))
  | refusal {error : ParseError} {final : State}
      (runs : run.run.run state = some (.error (.refused error), final))
      (inBounds : ∀ event ∈ final.events, event.InBounds input.tokens) :
      Answers input words levels run state (.error error)

section Steps

variable {α β : Type} {input : Input} {words rest : List Token} {mark : Token}
  {levels levels' : Nat} {state : State}

theorem Laid.mark_kind (laid : Laid input words mark) : mark.kind = .endOfInput := by
  simpa [Token.isEnd] using laid.mark_end

theorem Laid.mark_isOperator (laid : Laid input words mark) (symbol : String) :
    mark.isOperator symbol = false := by
  rw [Token.isOperator, laid.mark_kind]
  rfl

theorem Laid.mark_isBracket (laid : Laid input words mark) (bracket : String) :
    mark.isBracket bracket = false := by
  rw [Token.isBracket, laid.mark_kind]
  rfl

/-- The tokens that are left say where the cursor is. -/
theorem Stands.place_eq (stands : Stands input words levels rest state) :
    state.place + rest.length = words.length := by
  have place_le := stands.place_le
  rw [← stands.ahead, List.length_drop]
  omega

theorem Laid.firstEnd_eq (laid : Laid input words mark) :
    firstEnd input.tokens = words.length := by
  obtain ⟨beyond, split⟩ := laid.split
  have none_before : words.findIdx Token.isEnd = words.length :=
    List.findIdx_eq_length.2 laid.words_open
  rw [firstEnd, split, List.findIdx_append, none_before, List.findIdx_cons, laid.mark_end]
  simp

theorem Laid.firstEnd_lt (laid : Laid input words mark) :
    firstEnd input.tokens < input.tokens.length := by
  obtain ⟨beyond, split⟩ := laid.split
  rw [laid.firstEnd_eq, split, List.length_append, List.length_cons]
  omega

theorem Stands.isEnd_eq_false {token : Token} (laid : Laid input words mark)
    (stands : Stands input words levels (token :: rest) state) : token.isEnd = false :=
  laid.words_open token (List.mem_of_mem_drop (stands.ahead ▸ List.mem_cons_self))

/-- The token under the cursor is the next word, or the mark of the end. -/
theorem Stands.token_eq (laid : Laid input words mark)
    (stands : Stands input words levels rest state) :
    input.tokens[state.place]? = some (rest.headD mark) := by
  obtain ⟨beyond, split⟩ := laid.split
  have place_eq := stands.place_eq
  rw [split]
  cases rest with
  | nil =>
    rw [List.length_nil, Nat.add_zero] at place_eq
    rw [place_eq, List.getElem?_append_right (Nat.le_refl _), Nat.sub_self]
    rfl
  | cons token rest =>
    rw [List.length_cons] at place_eq
    rw [List.getElem?_append_left (by omega)]
    have := congrArg (·[0]?) stands.ahead
    simpa [List.getElem?_drop] using this

-- ============================================================================
-- Composing runs
-- ============================================================================

theorem run_bind {run : Run α} {next : α → Run β} {value : α} {final : State}
    (runs : run.run.run state = some (.ok value, final)) :
    (run >>= next).run.run state = (next value).run.run final := by
  rw [ExceptT.run_bind, StateT.run_bind, runs]
  rfl

theorem run_bind_error {run : Run α} {next : α → Run β} {stop : Stop} {final : State}
    (runs : run.run.run state = some (.error stop, final)) :
    (run >>= next).run.run state = some (.error stop, final) := by
  rw [ExceptT.run_bind, StateT.run_bind, runs]
  rfl

/-- What ends is stopped by its first part, or its first part gives a value. -/
theorem run_bind_cases {run : Run α} {next : α → Run β} {result : Except Stop β} {final : State}
    (runs : (run >>= next).run.run state = some (result, final)) :
    (∃ stop, run.run.run state = some (.error stop, final) ∧ result = .error stop) ∨
    ∃ value middle, run.run.run state = some (.ok value, middle) ∧
      (next value).run.run middle = some (result, final) := by
  change (run.run.run state).bind _ = some (result, final) at runs
  obtain ⟨⟨first, middle⟩, first_runs, runs⟩ := Option.bind_eq_some_iff.1 runs
  cases first with
  | error stop =>
    cases runs
    exact .inl ⟨stop, first_runs, rfl⟩
  | ok value => exact .inr ⟨value, middle, first_runs, runs⟩

-- ============================================================================
-- What each step writes down
-- ============================================================================

/-- A look is written down, whether there is a token or not. -/
theorem run_look (input : Input) (state : State) :
    (look input).run.run state =
      some (input.tokens[state.place]?.elim (.error (.faulted (.outsideTokens state.place))) .ok,
        state.after (.looked state.place)) := by
  have here : (get : Run State).run.run state = some (.ok state, state) := rfl
  have noted : (record (.looked state.place)).run.run state =
      some (.ok (), state.after (.looked state.place)) := rfl
  rw [look, run_bind here, run_bind noted]
  cases input.tokens[state.place]? <;> rfl

/-- A cut is written down, whether the text can be cut there or not. -/
theorem run_behind (bytes : Nat) (text : List Char) (state : State) :
    (behind bytes text).run.run state =
      some ((Text.cut? bytes text).elim (.error (.faulted (.outsideText bytes text)))
        fun parts => .ok parts.2, state.after (.cut bytes text)) := by
  have noted : (record (.cut bytes text)).run.run state =
      some (.ok (), state.after (.cut bytes text)) := rfl
  rw [behind, run_bind noted]
  cases Text.cut? bytes text <;> rfl

theorem run_endRound (start : Nat) (state : State) :
    (endRound start).run.run state = some (.ok (), state.after (.round start state.place)) :=
  rfl

theorem run_count (calls : Nat) (state : State) :
    (count calls).run.run state = some (.ok (), state.after (.counted calls)) :=
  rfl

/-- To move on is to look and, but at a mark of the end, to come to the next place, and both
    are written down. -/
theorem run_advance (input : Input) (state : State) :
    (advance input).run.run state =
      some (input.tokens[state.place]?.elim
        (.error (.faulted (.outsideTokens state.place)), state.after (.looked state.place))
        fun token => (.ok (), if token.isEnd then state.after (.looked state.place)
          else (state.after (.looked state.place)).after (.moved (state.place + 1)))) := by
  have seen := run_look input state
  cases h : input.tokens[state.place]? with
  | none =>
    rw [h] at seen
    exact run_bind_error seen
  | some token =>
    rw [h] at seen
    rw [advance, run_bind seen]
    cases isEnd : token.isEnd <;> simp only [isEnd, Option.elim_some] <;> rfl

-- ============================================================================
-- Composing answers
-- ============================================================================

/-- What follows a value goes on from where the cursor then stands. -/
theorem Answers.bind {run : Run α} {next : α → Run β} {value : α}
    {answer : Except ParseError (β × List Token)}
    (first : Answers input words levels' run state (.ok (value, rest)))
    (second : ∀ final, Stands input words levels' rest final →
      Answers input words levels (next value) final answer) :
    Answers input words levels (run >>= next) state answer := by
  cases first with
  | value runs stands =>
    cases second _ stands with
    | value runs' stands' => exact .value ((run_bind runs).trans runs') stands'
    | refusal runs' inBounds => exact .refusal ((run_bind runs).trans runs') inBounds

/-- Nothing follows a refusal. -/
theorem Answers.bind_refusal {run : Run α} {next : α → Run β} {error : ParseError}
    (first : Answers input words levels' run state (.error error)) :
    Answers input words levels (run >>= next) state (.error error) := by
  cases first with
  | refusal runs inBounds => exact .refusal (run_bind_error runs) inBounds

theorem Answers.pure (stands : Stands input words levels rest state) (value : α) :
    Answers input words levels (Pure.pure value) state (.ok (value, rest)) :=
  .value rfl stands

theorem refuse_answers (stands : Stands input words levels' rest state) (place : Position)
    (cause : ParseCause) :
    Answers input words levels (refuse place cause : Run α) state (.error ⟨place, cause⟩) :=
  .refusal rfl stands.inBounds

/-- Looking at the state changes nothing. -/
theorem Answers.get_bind {next : State → Run β} {answer : Except ParseError (β × List Token)}
    (h : Answers input words levels (next state) state answer) :
    Answers input words levels (get >>= next) state answer := by
  cases h with
  | value runs stands => exact .value runs stands
  | refusal runs inBounds => exact .refusal runs inBounds

-- ============================================================================
-- Steps
-- ============================================================================

/-- What is looked at is a word or the mark of the end. -/
theorem Stands.looked_inBounds (laid : Laid input words mark)
    (stands : Stands input words levels rest state) :
    Event.InBounds input.tokens (.looked state.place) := by
  have place_eq := stands.place_eq
  have firstEnd_eq := laid.firstEnd_eq
  have firstEnd_lt := laid.firstEnd_lt
  simp only [Event.InBounds]
  omega

theorem look_answers (laid : Laid input words mark)
    (stands : Stands input words levels rest state) :
    Answers input words levels (look input) state (.ok (rest.headD mark, rest)) := by
  have runs := run_look input state
  rw [stands.token_eq laid] at runs
  exact .value runs { stands with
    inBounds := List.forall_mem_cons.2 ⟨stands.looked_inBounds laid, stands.inBounds⟩ }

/-- Moving on passes the next word. -/
theorem advance_answers {token : Token} (laid : Laid input words mark)
    (stands : Stands input words levels (token :: rest) state) :
    Answers input words levels (advance input) state (.ok ((), rest)) := by
  have runs := run_advance input state
  rw [stands.token_eq laid, Option.elim_some, List.headD_cons, stands.isEnd_eq_false laid,
    if_neg Bool.false_ne_true] at runs
  have place_eq := stands.place_eq
  rw [List.length_cons] at place_eq
  have firstEnd_eq := laid.firstEnd_eq
  have moved : Event.InBounds input.tokens (.moved (state.place + 1)) := by
    simp only [Event.InBounds]
    omega
  exact .value runs { stands with
    ahead := by
      show words.drop (state.place + 1) = rest
      rw [← List.tail_drop, stands.ahead, List.tail_cons]
    place_le := by
      show state.place + 1 ≤ words.length
      omega
    inBounds := List.forall_mem_cons.2
      ⟨moved, List.forall_mem_cons.2 ⟨stands.looked_inBounds laid, stands.inBounds⟩⟩ }

theorem behind_answers {bytes : Nat} {text front back : List Char}
    (stands : Stands input words levels rest state)
    (cut : Text.cut? bytes text = some (front, back)) :
    Answers input words levels (behind bytes text) state (.ok (back, rest)) := by
  have inBounds : Event.InBounds input.tokens (.cut bytes text) := by
    simp only [Event.InBounds, cut, Option.isSome_some]
  have runs := run_behind bytes text state
  rw [cut] at runs
  exact .value runs { stands with
    inBounds := List.forall_mem_cons.2 ⟨inBounds, stands.inBounds⟩ }

theorem oneMore_answers {top number : Nat} (stands : Stands input words levels rest state)
    (h : number < top) :
    Answers input words levels (oneMore top number) state (.ok (number + 1, rest)) := by
  rw [oneMore, if_pos h]
  exact .pure stands _

/-- The bound of a right operand is a priority. -/
theorem rightBound_answers (room : input.grammar.HasRoom) {symbol : String} {info : OperatorInfo}
    (known : input.grammar.binary? symbol = some info)
    (stands : Stands input words levels rest state) :
    Answers input words levels (rightBound info) state (.ok (info.rightBound, rest)) := by
  unfold rightBound OperatorInfo.rightBound
  cases side : info.associativity with
  | left => exact oneMore_answers stands (room symbol info known side)
  | right => exact .pure stands _

/-- What is within the limit can be counted, and one more. -/
theorem maxDepth_lt_greatest : maxDepth < greatest := by
  decide

theorem deeper_answers {depth : Nat} (stands : Stands input words levels rest state)
    (place : Position) (depth_le : depth ≤ maxDepth) :
    Answers input words levels (deeper depth place) state
      (if maxDepth < depth + 1 then .error ⟨place, .nestedTooDeeply⟩
      else .ok (depth + 1, rest)) := by
  have countable := maxDepth_lt_greatest
  refine (oneMore_answers stands (by omega)).bind fun _ stands => ?_
  split
  · exact refuse_answers stands _ _
  · exact .pure stands _

/-- The calls that are open and the levels that may still nest add up to the limit. -/
theorem count_answers {calls : Nat} (stands : Stands input words levels' rest state)
    (nesting : calls + levels = maxDepth) :
    Answers input words levels (count calls) state (.ok ((), rest)) := by
  have inBounds : Event.InBounds input.tokens (.counted calls) := by
    simp only [Event.InBounds]
    omega
  exact .value (run_count calls state) { stands with
    nesting
    inBounds := List.forall_mem_cons.2 ⟨inBounds, stands.inBounds⟩ }

theorem openCall_answers (stands : Stands input words (levels + 1) rest state) :
    Answers input words levels openCall state (.ok ((), rest)) := by
  have nesting := stands.nesting
  have countable := maxDepth_lt_greatest
  refine .get_bind ((oneMore_answers stands (by omega)).bind fun _ stands => ?_)
  exact count_answers stands (by omega)

theorem closeCall_answers (stands : Stands input words levels rest state)
    (levels_lt : levels < maxDepth) :
    Answers input words (levels + 1) closeCall state (.ok ((), rest)) := by
  have nesting := stands.nesting
  obtain ⟨opened, hopened⟩ : ∃ opened, state.nesting = opened + 1 :=
    Nat.exists_eq_add_one.2 (by omega)
  refine .get_bind ?_
  rw [hopened]
  exact count_answers stands (by omega)

theorem endRound_answers {start : Nat} (stands : Stands input words levels rest state)
    (start_lt : start + rest.length < words.length) :
    Answers input words levels (endRound start) state (.ok ((), rest)) := by
  have place_eq := stands.place_eq
  have inBounds : Event.InBounds input.tokens (.round start state.place) := by
    simp only [Event.InBounds]
    omega
  exact .value (run_endRound start state) { stands with
    inBounds := List.forall_mem_cons.2 ⟨inBounds, stands.inBounds⟩ }

/-- What is left behind a closing parenthesis, if one comes next. -/
def passed (opened : Position) : List Token → Except ParseError (Unit × List Token)
  | [] => .error ⟨opened, .unclosedParenthesis⟩
  | token :: after =>
    if token.isBracket ")" then .ok ((), after)
    else .error ⟨token.position, .expectedClose ")" token.description⟩

theorem close_answers (laid : Laid input words mark) (opened : Position)
    (stands : Stands input words levels rest state) :
    Answers input words levels (close input opened) state (passed opened rest) := by
  refine (look_answers laid stands).bind fun _ seen => ?_
  cases rest with
  | nil =>
    rw [List.headD_nil, laid.mark_isBracket, laid.mark_end]
    exact refuse_answers seen _ _
  | cons token after =>
    rw [List.headD_cons, passed]
    split
    · exact advance_answers laid seen
    · rw [seen.isEnd_eq_false laid]
      exact refuse_answers seen _ _

-- ============================================================================
-- Numbers and indexes
-- ============================================================================

/-- The letter of a base takes one byte. -/
theorem cut_base {mark : Char} (digits : List Char) (h : mark.utf8Size = 1) :
    Text.cut? 2 ('0' :: mark :: digits) = some (['0', mark], digits) := by
  have zero : '0'.utf8Size = 1 := by decide
  simp [Text.cut?, zero, h]

theorem splitBase_answers (stands : Stands input words levels rest state) (text : List Char) :
    Answers input words levels (splitBase text) state (.ok (Expr.splitBase text, rest)) := by
  unfold splitBase Expr.splitBase
  split
  · rename_i mark hcut
    obtain ⟨⟨front, digits⟩, cut, rfl⟩ := Option.map_eq_some_iff.1 hcut
    obtain rfl := Text.append_of_cut cut
    have base (base : Nat) : Answers input words levels
        (do pure (base, ← behind 2 ('0' :: mark :: digits))) state (.ok ((base, digits), rest)) :=
      (behind_answers stands cut).bind fun _ stands => .pure stands _
    simp only [List.cons_append, List.nil_append]
    split
    · exact base 16
    split
    · exact base 8
    split
    · exact base 2
    · exact .pure stands _
  · rename_i other
    -- A text that starts with a zero and the letter of a base can be cut behind the letter.
    have unmarked {mark : Char} {digits : List Char} (h : mark.utf8Size = 1) :
        text ≠ '0' :: mark :: digits := by
      rintro rfl
      exact other mark (by rw [cut_base digits h]; rfl)
    split
    · rename_i mark digits
      have plain : ∀ letter, letter.utf8Size = 1 → mark ≠ letter := by
        rintro letter h rfl
        exact unmarked h rfl
      rw [if_neg (by rintro (h | h) <;> exact plain _ (by decide) h),
        if_neg (by rintro (h | h) <;> exact plain _ (by decide) h),
        if_neg (by rintro (h | h) <;> exact plain _ (by decide) h)]
      exact .pure stands _
    · exact .pure stands _

/-- What was read off one token, with the tokens that are left, or the error at its
    place. -/
def placed (place : Position) (rest : List Token) :
    Except ParseCause α → Except ParseError (α × List Token)
  | .ok value => .ok (value, rest)
  | .error cause => .error ⟨place, cause⟩

theorem number_answers (stands : Stands input words levels rest state) (token : Token) :
    Answers input words levels (number token) state
      (placed token.position rest (Expr.ofNumber token.value)) := by
  refine (splitBase_answers stands _).bind fun _ stands => ?_
  unfold Expr.ofNumber
  generalize Expr.splitBase (Expr.withoutSeparators token.value.toList) = parted
  obtain ⟨base, digits⟩ := parted
  dsimp only
  by_cases point : digits.contains '.'
  · rw [if_pos point, if_pos point]
    cases if base = 10 then Decimal.readFloat? digits else Decimal.readFraction? base digits with
    | none => exact refuse_answers stands _ _
    | some value => exact .pure stands _
  · rw [if_neg point, if_neg point]
    cases (Text.readSigned? base digits).filter Expr.fitsInt64 with
    | none => exact refuse_answers stands _ _
    | some number => exact .pure stands _

theorem indexPath_answers (stands : Stands input words levels rest state) {token : Token}
    (point : token.value.toList.head? = some '.') :
    Answers input words levels (indexPath token) state
      ((Expr.indexPath token.value).elim
        (.error ⟨token.position, .expectedIndex token.value⟩)
        fun indexes => .ok (indexes, rest)) := by
  obtain ⟨digits, hdigits⟩ := List.head?_eq_some_iff.1 point
  have cut : Text.cut? 1 token.value.toList = some (['.'], digits) := by
    have one : '.'.utf8Size = 1 := by decide
    simp [hdigits, Text.cut?, one]
  refine (behind_answers stands cut).bind fun _ stands => ?_
  have path : Expr.indexPath token.value = (digits.splitOn '.').mapM Expr.ofIndex := by
    rw [Expr.indexPath, hdigits]
    rfl
  rw [path]
  cases (digits.splitOn '.').mapM Expr.ofIndex with
  | none => exact refuse_answers stands _ _
  | some indexes => exact .pure stands _

/-- One level for each index: the first that is too many is refused, which comes to the
    same as counting them at once. -/
theorem indexed_answers {depth : Nat} (left : Expr) (indexes : List String)
    (stands : Stands input words levels rest state) (place : Position)
    (depth_le : depth ≤ maxDepth) :
    Answers input words levels (indexed place left depth indexes) state
      (if maxDepth < depth + indexes.length then .error ⟨place, .nestedTooDeeply⟩
      else .ok ((indexes.foldl .property left, depth + indexes.length), rest)) := by
  induction indexes generalizing left depth state with
  | nil =>
    rw [List.length_nil, Nat.add_zero, if_neg (by omega)]
    exact .pure stands _
  | cons index indexes ih =>
    have deep := deeper_answers stands place depth_le
    rw [List.length_cons, List.foldl_cons, Nat.add_comm indexes.length, ← Nat.add_assoc]
    by_cases h : maxDepth < depth + 1
    · rw [if_pos h] at deep
      rw [if_pos (by omega)]
      exact deep.bind_refusal
    · rw [if_neg h] at deep
      exact deep.bind fun _ stands => ih _ stands (by omega)

-- ============================================================================
-- Fuel
-- ============================================================================

/-- Where a run leaves something, another one leaves the same. -/
def Persists (run more : Run α) : Prop :=
  ∀ state outcome, run.run.run state = some outcome → more.run.run state = some outcome

theorem Persists.refl (run : Run α) : Persists run run :=
  fun _ _ h => h

theorem Persists.bind {run more : Run α} {next next' : α → Run β} (h : Persists run more)
    (hnext : ∀ value, Persists (next value) (next' value)) :
    Persists (run >>= next) (more >>= next') := by
  rintro state ⟨result, final⟩ ends
  obtain ⟨stop, stopped, rfl⟩ | ⟨value, middle, passed, ends⟩ := run_bind_cases ends
  · exact run_bind_error (h _ _ stopped)
  · exact (run_bind (h _ _ passed)).trans (hnext value _ _ ends)

/-- A reader uses the readers it calls for nothing else than to run them. -/
theorem body_persists (input : Input) {read read' : (call : Call) → Run call.Result}
    (h : ∀ call, Persists (read call) (read' call)) (call : Call) :
    Persists (body input read call) (body input read' call) := by
  cases call <;> simp only [body]
  all_goals
    repeat' first
      | with_reducible exact .refl _
      | with_reducible exact h _
      | with_reducible refine .bind ?_ fun _ => ?_
      | split

/-- What a run leaves it leaves with more fuel. -/
theorem reader_persists (input : Input) (call : Call) {fuel more : Nat} (h : fuel ≤ more) :
    Persists (reader input fuel call) (reader input more call) := by
  induction fuel generalizing more call with
  | zero =>
    intro state outcome ends
    cases ends
  | succ fuel ih =>
    obtain ⟨more, rfl⟩ : ∃ less, more = less + 1 := Nat.exists_eq_add_one.2 (by omega)
    exact body_persists input (fun call => ih call (Nat.le_of_succ_le_succ h)) call

theorem parse_of_le {grammar : Grammar} {tokens : List Token} {fuel more : Nat}
    {outcome : Except Stop Expr × State} (h : fuel ≤ more)
    (ends : parse grammar tokens fuel = some outcome) : parse grammar tokens more = some outcome :=
  (reader_persists _ _ h).bind (fun _ => .refl _) _ _ ends

/-- What a reader does is what its body does with less fuel. -/
theorem Answers.of_body {call : Call} {spent fuel : Nat}
    {answer : Except ParseError (call.Result × List Token)} (enough : spent < fuel)
    (h : ∀ fuel, spent ≤ fuel →
      Answers input words levels (body input (reader input fuel) call) state answer) :
    Answers input words levels (reader input fuel call) state answer := by
  cases fuel with
  | zero => exact absurd enough (Nat.not_lt_zero _)
  | succ fuel => exact h fuel (Nat.le_of_lt_succ enough)

end Steps

end Cursor

end ExprMachine
