/-
  ExprMachine.Proofs.Expr.Logged

  What a run with a cursor writes down is all that it does. The state it leaves is the one
  that its log tells of: the cursor does not move and no call opens or closes without an
  entry. Nor is a token read without one: on other tokens, that are the same wherever one
  was looked at, the run is the same. Both hold of the single steps, and of the readers by
  induction on the fuel.
-/
import ExprMachine.Proofs.Expr.Bounds

namespace ExprMachine.Cursor

/-- The state after all this has happened, the latest first. -/
def State.replay (state : State) (events : List Event) : State :=
  events.foldr (fun event state => state.after event) state

/-- Other tokens to read by the same operators. -/
def Input.on (input : Input) (tokens : List Token) : Input :=
  { input with tokens }

@[simp] theorem Input.on_grammar (input : Input) (tokens : List Token) :
    (input.on tokens).grammar = input.grammar := rfl

/-- Wherever a token was looked at, both lists have the same one, or both have none. -/
def SameLooked (tokens others : List Token) (events : List Event) : Prop :=
  ∀ place, .looked place ∈ events → tokens[place]? = others[place]?

/-- The first run leaves the state that its log tells of. The second one is the same, if on
    its tokens all looks of the first one come to the same. -/
structure Logged {α : Type} (tokens others : List Token) (run again : Run α) : Prop where
  told : ∀ {state result final}, run.run.run state = some (result, final) →
    ∃ recent, final = state.replay recent
  same : ∀ {state result final}, run.run.run state = some (result, final) →
    SameLooked tokens others final.events → again.run.run state = some (result, final)

section Steps

variable {α β : Type} {input : Input} {tokens others : List Token} {state : State}

@[simp] theorem State.events_after (state : State) (event : Event) :
    (state.after event).events = event :: state.events := by
  cases event <;> rfl

@[simp] theorem State.events_replay (state : State) (events : List Event) :
    (state.replay events).events = events ++ state.events := by
  induction events with
  | nil => rfl
  | cons event events ih => simpa [State.replay] using ih

/-- The counter is as it was, or at a number that was written down. -/
theorem State.nesting_replay (state : State) (events : List Event) :
    (state.replay events).nesting = state.nesting ∨
      .counted (state.replay events).nesting ∈ events := by
  induction events with
  | nil => exact .inl rfl
  | cons event events ih =>
    have later := ih.imp_right (List.mem_cons_of_mem event)
    cases event with
    | counted calls => exact .inr List.mem_cons_self
    | looked place => exact later
    | moved place => exact later
    | cut bytes text => exact later
    | round start stop => exact later

/-- The cursor is where it was, or at a place that was written down. -/
theorem State.place_replay (state : State) (events : List Event) :
    (state.replay events).place = state.place ∨
      .moved (state.replay events).place ∈ events := by
  induction events with
  | nil => exact .inl rfl
  | cons event events ih =>
    have later := ih.imp_right (List.mem_cons_of_mem event)
    cases event with
    | moved place => exact .inr List.mem_cons_self
    | looked place => exact later
    | counted calls => exact later
    | cut bytes text => exact later
    | round start stop => exact later

theorem State.replay_append (state : State) (recent earlier : List Event) :
    state.replay (recent ++ earlier) = (state.replay earlier).replay recent :=
  List.foldr_append

-- ============================================================================
-- Composing runs
-- ============================================================================

theorem SameLooked.earlier {earlier recent : List Event}
    (same : SameLooked tokens others (recent ++ earlier)) : SameLooked tokens others earlier :=
  fun place looked => same place (List.mem_append_right recent looked)

/-- A run that looks at no token does not depend on them. -/
theorem Logged.of_told {run : Run α}
    (told : ∀ {state result final}, run.run.run state = some (result, final) →
      ∃ recent, final = state.replay recent) : Logged tokens others run run :=
  ⟨told, fun runs _ => runs⟩

/-- Nothing happens. -/
theorem Logged.of_unchanged {run : Run α}
    (unchanged : ∀ {state result final}, run.run.run state = some (result, final) →
      final = state) : Logged tokens others run run :=
  .of_told fun runs => ⟨[], unchanged runs⟩

/-- One thing happens. -/
theorem Logged.of_step {run : Run α} (step : ∀ state, ∃ result event,
      run.run.run state = some (result, state.after event)) : Logged tokens others run run :=
  .of_told fun {state result final} runs => by
    obtain ⟨result, event, stepped⟩ := step state
    rw [stepped] at runs
    cases runs
    exact ⟨[event], rfl⟩

theorem Logged.pure (value : α) : Logged tokens others (pure value) (Pure.pure value) :=
  .of_unchanged fun runs => by cases runs; rfl

theorem Logged.throw (stop : Stop) : Logged (α := α) tokens others (throw stop) (throw stop) :=
  .of_unchanged fun runs => by cases runs; rfl

theorem Logged.get : Logged tokens others (get : Run State) get :=
  .of_unchanged fun runs => by cases runs; rfl

/-- The log goes on from one run to the next, so that the looks of both are in it. -/
theorem Logged.bind {run again : Run α} {next next' : α → Run β}
    (first : Logged tokens others run again)
    (second : ∀ value, Logged tokens others (next value) (next' value)) :
    Logged tokens others (run >>= next) (again >>= next') where
  told runs := by
    obtain ⟨stop, stopped, -⟩ | ⟨value, middle, passed, runs⟩ := run_bind_cases runs
    · exact first.told stopped
    · obtain ⟨earlier, rfl⟩ := first.told passed
      obtain ⟨recent, rfl⟩ := (second value).told runs
      exact ⟨recent ++ earlier, (State.replay_append _ _ _).symm⟩
  same runs same := by
    obtain ⟨stop, stopped, rfl⟩ | ⟨value, middle, passed, runs⟩ := run_bind_cases runs
    · exact run_bind_error (first.same stopped same)
    · obtain ⟨recent, rfl⟩ := (second value).told runs
      have earlier : SameLooked tokens others middle.events := by
        rw [State.events_replay] at same
        exact same.earlier
      exact (run_bind (first.same passed earlier)).trans ((second value).same runs same)

-- ============================================================================
-- Steps
-- ============================================================================

theorem look_logged (input : Input) (others : List Token) :
    Logged input.tokens others (look input) (look (input.on others)) where
  told {state _ _} runs := by
    rw [run_look] at runs
    cases runs
    exact ⟨[.looked state.place], rfl⟩
  same {state _ _} runs same := by
    rw [run_look] at runs ⊢
    cases runs
    have looked := same state.place (by simp)
    rw [Input.on, ← looked]

theorem count_logged (calls : Nat) : Logged tokens others (count calls) (count calls) :=
  .of_step fun state => ⟨_, _, run_count calls state⟩

theorem behind_logged (bytes : Nat) (text : List Char) :
    Logged tokens others (behind bytes text) (behind bytes text) :=
  .of_step fun state => ⟨_, _, run_behind bytes text state⟩

theorem endRound_logged (start : Nat) :
    Logged tokens others (endRound start) (endRound start) :=
  .of_step fun state => ⟨_, _, run_endRound start state⟩

/-- What is looked at decides whether the cursor moves. -/
theorem advance_logged (input : Input) (others : List Token) :
    Logged input.tokens others (advance input) (advance (input.on others)) := by
  refine (look_logged input others).bind fun token => ?_
  split
  · exact .pure ()
  · refine .of_told fun {state result final} runs => ?_
    cases runs
    exact ⟨[.moved (state.place + 1)], rfl⟩

theorem refuse_logged (place : Position) (cause : ParseCause) :
    Logged (α := α) tokens others (refuse place cause) (refuse place cause) :=
  .throw _

theorem oneMore_logged (top number : Nat) :
    Logged tokens others (oneMore top number) (oneMore top number) := by
  unfold oneMore
  split
  · exact .pure _
  · exact .throw _

theorem deeper_logged (depth : Nat) (place : Position) :
    Logged tokens others (deeper depth place) (deeper depth place) := by
  refine (oneMore_logged _ _).bind fun depth => ?_
  split
  · exact refuse_logged _ _
  · exact .pure _

theorem openCall_logged : Logged tokens others openCall openCall :=
  Logged.get.bind fun _ => (oneMore_logged _ _).bind fun _ => count_logged _

theorem closeCall_logged : Logged tokens others closeCall closeCall := by
  refine Logged.get.bind fun state => ?_
  split
  · exact .throw _
  · exact count_logged _

theorem rightBound_logged (info : OperatorInfo) :
    Logged tokens others (rightBound info) (rightBound info) := by
  unfold rightBound
  split
  · exact oneMore_logged _ _
  · exact .pure _

theorem close_logged (input : Input) (others : List Token) (opened : Position) :
    Logged input.tokens others (close input opened) (close (input.on others) opened) := by
  refine (look_logged input others).bind fun token => ?_
  split
  · exact advance_logged input others
  split <;> exact refuse_logged _ _

theorem splitBase_logged (text : List Char) :
    Logged tokens others (splitBase text) (splitBase text) := by
  have base (base : Nat) : Logged tokens others (do pure (base, ← behind 2 text))
      (do pure (base, ← behind 2 text)) :=
    (behind_logged 2 text).bind fun _ => .pure _
  unfold splitBase
  split
  · split
    · exact base 16
    split
    · exact base 8
    split
    · exact base 2
    · exact .pure _
  · exact .pure _

theorem number_logged (token : Token) :
    Logged tokens others (number token) (number token) := by
  refine (splitBase_logged _).bind fun ⟨base, digits⟩ => ?_
  dsimp only
  split
  · split
    · exact .pure _
    · exact refuse_logged _ _
  · split
    · exact .pure _
    · exact refuse_logged _ _

theorem indexPath_logged (token : Token) :
    Logged tokens others (indexPath token) (indexPath token) := by
  refine (behind_logged 1 _).bind fun digits => ?_
  split
  · exact .pure _
  · exact refuse_logged _ _

theorem indexed_logged (place : Position) (left : Expr) (depth : Nat) (indexes : List String) :
    Logged tokens others (indexed place left depth indexes) (indexed place left depth indexes) := by
  induction indexes generalizing left depth with
  | nil => exact .pure _
  | cons index indexes ih => exact (deeper_logged depth place).bind fun depth => ih _ depth

-- ============================================================================
-- Readers
-- ============================================================================

/-- A reader looks, moves, cuts and counts by the steps above, and calls readers. -/
theorem body_logged (input : Input) (others : List Token)
    {read read' : (call : Call) → Run call.Result}
    (h : ∀ call, Logged input.tokens others (read call) (read' call)) (call : Call) :
    Logged input.tokens others (body input read call) (body (input.on others) read' call) := by
  cases call <;> simp only [body, Input.on_grammar]
  -- What is decided depends on what was looked at or read, the same in both runs.
  all_goals
    repeat' first
      | with_reducible exact h _
      | with_reducible exact .pure _
      | with_reducible exact .throw _
      | with_reducible exact .get
      | with_reducible exact refuse_logged _ _
      | with_reducible exact look_logged _ _
      | with_reducible exact advance_logged _ _
      | with_reducible exact close_logged _ _ _
      | with_reducible exact deeper_logged _ _
      | with_reducible exact openCall_logged
      | with_reducible exact closeCall_logged
      | with_reducible exact endRound_logged _
      | with_reducible exact rightBound_logged _
      | with_reducible exact number_logged _
      | with_reducible exact indexPath_logged _
      | with_reducible exact indexed_logged _ _ _ _
      | with_reducible refine .bind ?_ fun _ => ?_
      | split

theorem reader_logged (input : Input) (others : List Token) (fuel : Nat) (call : Call) :
    Logged input.tokens others (reader input fuel call) (reader (input.on others) fuel call) := by
  induction fuel generalizing call with
  | zero => exact .of_told fun runs => by cases runs
  | succ fuel ih => exact body_logged input others ih call

theorem whole_logged (input : Input) (others : List Token) (fuel : Nat) :
    Logged input.tokens others (whole input fuel) (whole (input.on others) fuel) := by
  refine (reader_logged input others fuel _).bind fun ⟨tree, depth⟩ => ?_
  refine (look_logged input others).bind fun token => ?_
  split
  · exact .pure _
  · exact refuse_logged _ _

end Steps

-- ============================================================================
-- Parsing
-- ============================================================================

section Parsing

variable {grammar : Grammar} {tokens : List Token} {fuel : Nat} {result : Except Stop Expr}
  {final : State}

/-- Where the cursor ends and how many calls are open then is what the log tells. -/
theorem parse_replay (ends : parse grammar tokens fuel = some (result, final)) :
    final = (⟨0, 0, []⟩ : State).replay final.events := by
  obtain ⟨recent, rfl⟩ := (whole_logged ⟨grammar, marked tokens⟩ [] fuel).told ends
  rw [State.events_replay, List.append_nil]

/-- Reading depends on the tokens that were looked at, and on no other. -/
theorem parse_of_sameLooked {others : List Token}
    (ends : parse grammar tokens fuel = some (result, final))
    (same : SameLooked (marked tokens) (marked others) final.events) :
    parse grammar others fuel = some (result, final) :=
  (whole_logged ⟨grammar, marked tokens⟩ (marked others) fuel).same ends same

/-- At every moment of reading, no more calls are open than the limit allows, and the cursor
    is not behind the first mark of the end. -/
theorem parse_moments (room : grammar.HasRoom)
    (ends : parse grammar tokens fuel = some (result, final)) {earlier : List Event}
    (happened : earlier <:+ final.events) :
    ((⟨0, 0, []⟩ : State).replay earlier).nesting ≤ maxDepth ∧
      ((⟨0, 0, []⟩ : State).replay earlier).place ≤ firstEnd (marked tokens) := by
  obtain ⟨final', runs, inBounds⟩ := parse_inBounds grammar tokens room
  have more := parse_of_le (Nat.le_add_left fuel (4 * maxDepth + tokens.length + 1)) ends
  obtain rfl : final' = final := by
    rw [runs _ (by omega)] at more
    cases more
    rfl
  constructor
  · rcases State.nesting_replay ⟨0, 0, []⟩ earlier with start | counted
    · exact start ▸ Nat.zero_le _
    · exact inBounds _ (happened.subset counted)
  · rcases State.place_replay ⟨0, 0, []⟩ earlier with start | moved
    · exact start ▸ Nat.zero_le _
    · exact inBounds _ (happened.subset moved)

-- In parentheses a second call is open, and none at the end.
example : (parse .standard [⟨.bracket, .start, "("⟩, ⟨.identifier, .start, "a"⟩,
      ⟨.bracket, .start, ")"⟩] 9).map
        (fun run => (run.2.events.contains (.counted 2), run.2.nesting)) =
    some (true, 0) := by
  cbv

end Parsing

end ExprMachine.Cursor
