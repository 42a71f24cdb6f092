/-
  ExprMachine.Proofs.Machine.Listed

  Runs and listings of the same code. Each finds its own way through the bytes: the
  machine takes instructions off the front of what is left of them, a listing reads at
  places of the whole. They never fall out of step, so that what a run starts is the
  beginning of the listing. Where a run stops at a defect of the chunk, the last of the
  lines that it started shows the defect.
-/
import ExprMachine.Bytecode.Listing
import ExprMachine.Proofs.Machine.Verified

namespace ExprMachine

-- ============================================================================
-- Lines of a listing
-- ============================================================================

namespace Chunk

variable {chunk : Chunk} {place : Nat} {byte : UInt8} {rest : List UInt8}

/-- What a machine can find at the front of the code, and what it leaves behind it. -/
inductive Finds (byte : UInt8) : List UInt8 → Fetched × List UInt8 → Prop where
  | unknown {rest : List UInt8} (noOpcode : Opcode.ofByte? byte = none) :
      Finds byte rest (.unknown byte, rest)
  | bare {op : Opcode} {rest : List UInt8} (known : Opcode.ofByte? byte = some op)
      (plain : op.takesConstant = false) : Finds byte rest (.instruction op 0, rest)
  | indexed {op : Opcode} {high low : UInt8} {rest : List UInt8}
      (known : Opcode.ofByte? byte = some op) (takes : op.takesConstant = true) :
      Finds byte (high :: low :: rest) (.instruction op (word high low), rest)
  | truncated {op : Opcode} {rest : List UInt8} (known : Opcode.ofByte? byte = some op)
      (takes : op.takesConstant = true) (short : rest.length < 2) :
      Finds byte rest (.truncated op, [])

theorem finds_fetch (byte : UInt8) (rest : List UInt8) : Finds byte rest (fetch byte rest) := by
  cases known : Opcode.ofByte? byte with
  | none =>
    rw [fetch, known]
    exact .unknown known
  | some op =>
    cases takes : op.takesConstant with
    | false =>
      simp only [fetch, known, takes, Bool.false_eq_true, if_false]
      exact .bare known takes
    | true =>
      simp only [fetch, known, takes, if_true]
      rcases rest with _ | ⟨high, _ | ⟨low, rest⟩⟩
      · exact .truncated known takes Nat.two_pos
      · exact .truncated known takes Nat.one_lt_two
      · exact .indexed known takes

/-- The bytes of what is left of the code are bytes of the whole. -/
theorem getElem?_of_drop {left : List UInt8} (h : chunk.code.toList.drop place = left)
    (distance : Nat) : chunk.code[place + distance]? = left[distance]? := by
  rw [← h, List.getElem?_drop, Array.getElem?_toList]

/-- An index is read off the two bytes behind the opcode, if they are there. -/
theorem operandAt?_of_drop (h : chunk.code.toList.drop place = byte :: rest) :
    chunk.operandAt? (place + 1) =
      rest[0]?.bind fun high => rest[1]?.bind fun low => some (word high low) := by
  have hhigh : chunk.code[place + 1]? = rest[0]? := getElem?_of_drop h 1
  have hlow : chunk.code[place + 1 + 1]? = rest[1]? := getElem?_of_drop h 2
  rw [operandAt?, hhigh, hlow]
  rfl

/-- At a place both ways through the code find the same. -/
theorem listedAt_eq_fetch (h : chunk.code.toList.drop place = byte :: rest) :
    chunk.listedAt place byte = (fetch byte rest).1 := by
  have found := finds_fetch byte rest
  generalize fetch byte rest = result at found
  cases found with
  | unknown noOpcode => simp [listedAt, noOpcode]
  | bare known plain => simp [listedAt, known, plain]
  | indexed known takes => simp [listedAt, known, takes, operandAt?_of_drop h]
  | truncated known takes short =>
    have cut : rest[1]? = none := List.getElem?_eq_none (Nat.le_of_lt_succ short)
    cases hhigh : rest[0]? <;> simp [listedAt, known, takes, operandAt?_of_drop h, hhigh, cut]

/-- Behind a line a listing has the code left that the machine has left. -/
theorem drop_stride (h : chunk.code.toList.drop place = byte :: rest) :
    chunk.code.toList.drop (place + stride byte) = (fetch byte rest).2 := by
  rw [← List.drop_drop, h]
  have found := finds_fetch byte rest
  generalize fetch byte rest = result at found
  cases found with
  | unknown noOpcode => simp [stride, noOpcode]
  | bare known plain => simp [stride, known, plain]
  | indexed known takes => simp [stride, known, takes]
  | truncated known takes short => simpa [stride, known, takes] using Nat.le_of_lt short

/-- The two go on by as many bytes, except behind a truncated instruction. -/
theorem stride_eq_size (whole : ∀ op, (fetch byte rest).1 ≠ .truncated op) :
    stride byte = (fetch byte rest).1.size := by
  have found := finds_fetch byte rest
  generalize fetch byte rest = result at found whole
  cases found with
  | unknown noOpcode => simp [stride, noOpcode, Fetched.size]
  | bare known plain => simp [stride, known, plain, Fetched.size]
  | indexed known takes => simp [stride, known, takes, Fetched.size]
  | truncated => exact absurd rfl (whole _)

/-- Nothing is left behind an instruction that is cut off. -/
theorem rest_of_truncated {op : Opcode} (h : (fetch byte rest).1 = .truncated op) :
    (fetch byte rest).2 = [] := by
  have found := finds_fetch byte rest
  generalize fetch byte rest = result at found h
  cases found with
  | truncated => rfl
  | _ => cases h

theorem toList_linesFrom (chunk : Chunk) (place : Nat) (found : Array Line) :
    (chunk.linesFrom place found).toList =
      found.toList ++ (chunk.linesFrom place #[]).toList := by
  unfold linesFrom
  split
  · rw [toList_linesFrom chunk _ (found.push _), toList_linesFrom chunk _ (#[].push _)]
    simp
  · simp
termination_by chunk.code.size - place
decreasing_by all_goals have := stride_pos chunk.code[place]; omega

theorem linesFrom_nil (h : chunk.code.toList.drop place = []) :
    (chunk.linesFrom place #[]).toList = [] := by
  rw [List.drop_eq_nil_iff, Array.length_toList] at h
  rw [linesFrom, dif_neg (Nat.not_lt_of_le h)]

/-- The lines from a place on begin with what the machine fetches there. -/
theorem linesFrom_cons (h : chunk.code.toList.drop place = byte :: rest) :
    (chunk.linesFrom place #[]).toList =
      ⟨place, (fetch byte rest).1⟩ :: (chunk.linesFrom (place + stride byte) #[]).toList := by
  have here : chunk.code[place]? = some byte := getElem?_of_drop h 0
  obtain ⟨inside, hbyte⟩ := Array.getElem?_eq_some_iff.1 here
  rw [linesFrom, dif_pos inside, toList_linesFrom, hbyte, listedAt_eq_fetch h]
  rfl

end Chunk

-- ============================================================================
-- Stops
-- ============================================================================

namespace Machine

variable {context : Context} {constants : Array Constant} {offset index : Nat} {stack : Stack}
  {error : RunError} {op : Opcode}

/-- How an instruction can fail: as any run of well-formed code can, because its index finds
    no constant, or because of another defect than those of its bytes. -/
inductive Fails (constants : Array Constant) (offset : Nat) (op : Opcode) (index : Nat) :
    RunError → Prop where
  | failure {error : RunError} (noDefect : error.defectOffset? = none) :
      Fails constants offset op index error
  | outOfRange (takes : op.takesConstant = true) (missing : constants[index]? = none) :
      Fails constants offset op index (.malformedChunk offset .indexOutOfRange)
  | other {defect : Defect} (whole : defect ≠ .truncatedOperand)
      (inRange : defect ≠ .indexOutOfRange) :
      Fails constants offset op index (.malformedChunk offset defect)

theorem fails_pop (h : pop offset stack = .error error) :
    Fails constants offset op index error := by
  unfold pop at h
  split at h <;> cases h
  exact .other (by decide) (by decide)

theorem fails_popPair (h : popPair offset stack = .error error) :
    Fails constants offset op index error := by
  unfold popPair at h
  split at h <;> cases h
  exact .other (by decide) (by decide)

theorem fails_popMany {count : Nat} (h : popMany offset count stack = .error error) :
    Fails constants offset op index error := by
  rw [popMany_eq] at h
  split at h <;> cases h
  exact .other (by decide) (by decide)

theorem fails_constantAt (takes : op.takesConstant = true)
    (h : constantAt constants offset index = .error error) :
    Fails constants offset op index error := by
  unfold constantAt at h
  split at h <;> cases h
  exact .outOfRange takes ‹_›

theorem fails_literalAt (takes : op.takesConstant = true)
    (h : literalAt constants offset index = .error error) :
    Fails constants offset op index error := by
  unfold literalAt at h
  split at h <;> cases h
  · exact fails_constantAt takes ‹_›
  · exact .other (by decide) (by decide)

theorem fails_nameAt (takes : op.takesConstant = true)
    (h : nameAt constants offset index = .error error) :
    Fails constants offset op index error := by
  unfold nameAt at h
  split at h <;> cases h
  · exact fails_constantAt takes ‹_›
  · exact .other (by decide) (by decide)

theorem fails_callAt (takes : op.takesConstant = true)
    (h : callAt constants offset index = .error error) :
    Fails constants offset op index error := by
  unfold callAt at h
  split at h <;> cases h
  · exact fails_constantAt takes ‹_›
  · exact .other (by decide) (by decide)

theorem fails_countAt (takes : op.takesConstant = true)
    (h : countAt constants offset index = .error error) :
    Fails constants offset op index error := by
  unfold countAt at h
  split at h
  · cases h
    exact fails_constantAt takes ‹_›
  · split at h <;> cases h
    exact .other (by decide) (by decide)
  · cases h
    exact .other (by decide) (by decide)

theorem fails_stepOverloaded {symbol : String}
    (h : stepOverloaded context symbol offset stack = .error error) :
    Fails constants offset op index error := by
  unfold stepOverloaded at h
  split at h
  · cases h
    exact fails_popPair ‹_›
  · split at h <;> cases h
    exact .failure (defectOffset?_applyOperator ‹_›)

theorem fails_stepTruth {test : Value → Value → Bool}
    (h : stepTruth test offset stack = .error error) :
    Fails constants offset op index error := by
  unfold stepTruth at h
  split at h <;> cases h
  exact fails_popPair ‹_›

theorem fails_stepMember (h : stepMember context offset stack = .error error) :
    Fails constants offset op index error := by
  unfold stepMember at h
  split at h
  · cases h
    exact fails_popPair ‹_›
  · split at h <;> cases h
    exact .failure (defectOffset?_isMember ‹_›)

theorem fails_stepProperty (takes : op.takesConstant = true)
    (h : stepProperty context constants offset index stack = .error error) :
    Fails constants offset op index error := by
  unfold stepProperty at h
  split at h
  · cases h
    exact fails_nameAt takes ‹_›
  · split at h <;> cases h
    exact fails_pop ‹_›

theorem fails_stepCall (takes : op.takesConstant = true)
    (h : stepCall context constants offset index stack = .error error) :
    Fails constants offset op index error := by
  unfold stepCall at h
  split at h
  · cases h
    exact fails_callAt takes ‹_›
  · split at h
    · cases h
      exact fails_popMany ‹_›
    · split at h <;> cases h
      exact .failure (defectOffset?_invoke ‹_›)

theorem fails_stepMethod (takes : op.takesConstant = true)
    (h : stepMethod context constants offset index stack = .error error) :
    Fails constants offset op index error := by
  unfold stepMethod at h
  split at h
  · cases h
    exact fails_callAt takes ‹_›
  · split at h
    · cases h
      exact fails_popMany ‹_›
    · split at h
      · cases h
        exact fails_pop ‹_›
      · split at h <;> cases h
        exact .failure (defectOffset?_invoke ‹_›)

theorem fails_stepList (takes : op.takesConstant = true)
    (h : stepList constants offset index stack = .error error) :
    Fails constants offset op index error := by
  unfold stepList at h
  split at h
  · cases h
    exact fails_countAt takes ‹_›
  · split at h <;> cases h
    exact fails_popMany ‹_›

/-- Every step that fails fails in one of these ways. -/
theorem fails_step (h : step context constants offset op index stack = .error error) :
    Fails constants offset op index error := by
  cases op with
  | push =>
    simp only [step] at h
    split at h <;> cases h
    exact fails_literalAt rfl ‹_›
  | fetch =>
    simp only [step] at h
    split at h <;> cases h
    exact fails_nameAt rfl ‹_›
  | pop | not =>
    simp only [step] at h
    split at h <;> cases h
    exact fails_pop ‹_›
  | negate =>
    simp only [step] at h
    split at h
    · cases h
      exact fails_pop ‹_›
    · split at h <;> cases h
      exact .failure (defectOffset?_negate ‹_›)
  | pushTrue | pushFalse | pushNil => cases h
  | equal | notEqual | and | or => exact fails_stepTruth h
  | member => exact fails_stepMember h
  | property => exact fails_stepProperty rfl h
  | call => exact fails_stepCall rfl h
  | method => exact fails_stepMethod rfl h
  | list => exact fails_stepList rfl h
  | add | sub | mul | div | mod | pow | less | greater | lessEqual | greaterEqual =>
    exact fails_stepOverloaded h

/-- Whether a line stands where an error of the chunk is, and shows what is wrong there: a
    byte that is no opcode, an index that is cut off, an index that finds no constant. -/
def Shows (chunk : Chunk) (line : Chunk.Line) : RunError → Prop
  | .unknownInstruction byte offset =>
    line = ⟨offset, .unknown byte⟩ ∧
      chunk.fetchedText line.fetched =
        "UNKNOWN 0x" ++ Text.padLeft '0' 2 (Text.hexadecimal byte.toNat)
  | .malformedChunk offset .truncatedOperand =>
    ∃ op, line = ⟨offset, .truncated op⟩ ∧
      chunk.fetchedText line.fetched = Text.padRight 9 op.name ++ "<truncated>"
  | .malformedChunk offset .indexOutOfRange =>
    ∃ op index, line = ⟨offset, .instruction op index⟩ ∧ chunk.constants[index]? = none ∧
      chunk.fetchedText line.fetched =
        Text.padRight 9 op.name ++ "#" ++ Text.padRight 5 (toString index) ++ " ; " ++
          "<out of range>"
  | .malformedChunk offset _ => ∃ op index, line = ⟨offset, .instruction op index⟩
  | _ => False

/-- A step that stops at a defect stops at its own line, which shows the defect. -/
theorem shows_of_stepFetched {chunk : Chunk} {fetched : Chunk.Fetched}
    (h : stepFetched context chunk.constants offset fetched stack = .error error)
    (malformed : error.defectOffset? ≠ none) :
    Shows chunk ⟨offset, fetched⟩ error := by
  cases fetched with
  | unknown byte =>
    cases h
    exact ⟨rfl, rfl⟩
  | truncated op =>
    cases h
    exact ⟨op, rfl, rfl⟩
  | instruction op index =>
    cases fails_step h with
    | failure noDefect => exact absurd noDefect malformed
    | outOfRange takes missing =>
      refine ⟨op, index, rfl, missing, ?_⟩
      simp only [Chunk.fetchedText, takes, if_true, Chunk.constantText, missing]
    | @other defect whole inRange =>
      cases defect with
      | truncatedOperand => exact absurd rfl whole
      | indexOutOfRange => exact absurd rfl inRange
      | _ => exact ⟨op, index, rfl⟩

theorem defectOffset?_of_shows {chunk : Chunk} {line : Chunk.Line} (h : Shows chunk line error) :
    error.defectOffset? = some line.offset := by
  cases error with
  | unknownInstruction byte offset =>
    obtain ⟨rfl, -⟩ := h
    rfl
  | malformedChunk offset defect =>
    cases defect with
    | truncatedOperand =>
      obtain ⟨op, rfl, -⟩ := h
      rfl
    | indexOutOfRange =>
      obtain ⟨op, index, rfl, -⟩ := h
      rfl
    | _ =>
      obtain ⟨op, index, rfl⟩ := h
      rfl
  | _ => exact h.elim

-- ============================================================================
-- Traces
-- ============================================================================

/-- Carries out the code from an offset on, and keeps what was started. -/
def tracedFrom (context : Context) (constants : Array Constant) (offset : Nat) (stack : Stack) :
    List UInt8 → List Chunk.Line × Except RunError Stack
  | [] => ([], .ok stack)
  | byte :: rest =>
    match stepFetched context constants offset (Chunk.fetch byte rest).1 stack with
    | .error error => ([⟨offset, (Chunk.fetch byte rest).1⟩], .error error)
    | .ok stack =>
      let later := tracedFrom context constants (offset + (Chunk.fetch byte rest).1.size) stack
        (Chunk.fetch byte rest).2
      (⟨offset, (Chunk.fetch byte rest).1⟩ :: later.1, later.2)
termination_by code => code.length
decreasing_by exact Nat.lt_succ_of_le (Chunk.length_fetch_le byte rest)

/-- Runs a chunk, and keeps what was started. -/
def traced (context : Context) (chunk : Chunk) : List Chunk.Line × Except RunError Value :=
  let trace := tracedFrom context chunk.constants 0 [] chunk.code.toList
  (trace.1, trace.2.map fun stack => stack.head?.getD .nil)

/-- Keeping a trace does not change the run. -/
theorem tracedFrom_outcome (code : List UInt8) :
    (tracedFrom context constants offset stack code).2 =
      runFrom context constants offset stack code := by
  induction code using Chunk.fetchInduction generalizing offset stack with
  | nil => rw [tracedFrom, runFrom_nil]
  | cons byte rest ih =>
    rw [tracedFrom, runFrom_cons]
    cases stepFetched context constants offset (Chunk.fetch byte rest).1 stack with
    | error error => rfl
    | ok after => exact ih

theorem traced_outcome (context : Context) (chunk : Chunk) :
    (traced context chunk).2 = run context chunk := by
  rw [traced, run, tracedFrom_outcome]
  cases runFrom context chunk.constants 0 [] chunk.code.toList <;> rfl

/-- Whether an outcome is that of a run that went to the end of the code: a success, or an
    instruction that the end of the code cuts off. -/
def ReachesEnd {α : Type} : Except RunError α → Prop
  | .ok _ => True
  | .error error => ∃ offset, error = .malformedChunk offset .truncatedOperand

theorem ReachesEnd.of_map {α β : Type} {f : α → β} {outcome : Except RunError α}
    (h : ReachesEnd (outcome.map f)) : ReachesEnd outcome := by
  cases outcome with
  | ok => exact trivial
  | error => exact h

/-- What is started from a place on are the first lines of the listing from there, and all
    of them if the run reaches the end of the code. -/
theorem tracedFrom_listed (context : Context) (stack : Stack) {chunk : Chunk} {place : Nat}
    {code : List UInt8} (h : chunk.code.toList.drop place = code) :
    (tracedFrom context chunk.constants place stack code).1 <+:
      (chunk.linesFrom place #[]).toList ∧
    (ReachesEnd (tracedFrom context chunk.constants place stack code).2 →
      (tracedFrom context chunk.constants place stack code).1 =
        (chunk.linesFrom place #[]).toList) := by
  induction code using Chunk.fetchInduction generalizing place stack with
  | nil =>
    rw [tracedFrom, Chunk.linesFrom_nil h]
    exact ⟨List.prefix_rfl, fun _ => rfl⟩
  | cons byte rest ih =>
    rw [tracedFrom, Chunk.linesFrom_cons h]
    have next := Chunk.drop_stride h
    cases hstep : stepFetched context chunk.constants place (Chunk.fetch byte rest).1 stack with
    | error error =>
      refine ⟨List.prefix_append [_] _, ?_⟩
      rintro ⟨offset, rfl⟩
      obtain ⟨op, hline, -⟩ := shows_of_stepFetched hstep (by simp [RunError.defectOffset?])
      rw [Chunk.rest_of_truncated (congrArg Chunk.Line.fetched hline)] at next
      rw [Chunk.linesFrom_nil next]
    | ok after =>
      -- A truncated instruction is not carried out, so both go on at the same place.
      have whole : ∀ op, (Chunk.fetch byte rest).1 ≠ .truncated op := by
        intro op hop
        rw [hop] at hstep
        cases hstep
      rw [Chunk.stride_eq_size whole] at next ⊢
      obtain ⟨begins, completes⟩ := ih after next
      exact ⟨List.cons_prefix_cons.2 ⟨rfl, begins⟩, fun ends => congrArg _ (completes ends)⟩

/-- A run that fails fails in what it started last. -/
theorem tracedFrom_stops {code : List UInt8}
    (h : (tracedFrom context constants offset stack code).2 = .error error) :
    ∃ line, (tracedFrom context constants offset stack code).1.getLast? = some line ∧
      ∃ stack, stepFetched context constants line.offset line.fetched stack = .error error := by
  induction code using Chunk.fetchInduction generalizing offset stack with
  | nil =>
    rw [tracedFrom] at h
    cases h
  | cons byte rest ih =>
    rw [tracedFrom] at h ⊢
    cases hstep : stepFetched context constants offset (Chunk.fetch byte rest).1 stack with
    | error stopped =>
      rw [hstep] at h
      cases h
      exact ⟨_, rfl, stack, hstep⟩
    | ok after =>
      rw [hstep] at h
      obtain ⟨line, hlast, hline⟩ := ih h
      refine ⟨line, ?_, hline⟩
      rw [List.getLast?_cons, hlast]
      rfl

-- ============================================================================
-- Runs and listings
-- ============================================================================

/-- The machine and the listings read the same instructions. What a run starts, with its
    offsets, opcodes and indices, is the beginning of the lines of the listing, and all of
    them if the run reaches the end of the code. A run that stops at a defect of the chunk
    stops at the last line that it started, and the listing shows the defect there. -/
theorem run_listed (context : Context) (chunk : Chunk) :
    (traced context chunk).2 = run context chunk ∧
    (traced context chunk).1 <+: chunk.lines ∧
    (ReachesEnd (run context chunk) → (traced context chunk).1 = chunk.lines) ∧
    ∀ error, run context chunk = .error error →
      error.code = "RB-R001" ∨ error.code = "RB-R006" →
      ∃ line ∈ chunk.lines, (traced context chunk).1.getLast? = some line ∧
        error.defectOffset? = some line.offset ∧ Shows chunk line error ∧
        chunk.lineText line ∈ chunk.listingLines := by
  have whole : chunk.code.toList.drop 0 = chunk.code.toList := rfl
  obtain ⟨begins, completes⟩ := tracedFrom_listed context [] whole
  refine ⟨traced_outcome context chunk, begins, fun ends => ?_, fun error h hcode => ?_⟩
  · rw [← traced_outcome] at ends
    exact completes (.of_map ends)
  · rw [run, ← tracedFrom_outcome] at h
    split at h <;> cases h
    obtain ⟨line, hlast, stack, hstep⟩ := tracedFrom_stops ‹_›
    have malformed : error.defectOffset? ≠ none := fun noDefect =>
      hcode.elim (RunError.defectOffset?_eq_none_iff.1 noDefect).1
        (RunError.defectOffset?_eq_none_iff.1 noDefect).2
    have shown : Shows chunk line error := shows_of_stepFetched hstep malformed
    have listed : line ∈ chunk.lines := begins.subset (List.mem_of_getLast? hlast)
    refine ⟨line, listed, hlast, defectOffset?_of_shows shown, shown, ?_⟩
    exact List.mem_append_right _ (List.mem_cons_of_mem _ (List.mem_map_of_mem listed))

/-- The third byte of this code is no opcode, and the run stops there: `TRUE`, `NOT` and the
    byte are what it started. The end of the code cuts off the line behind. -/
theorem run_listed_unknown :
    let chunk : Chunk := ⟨#[13, 9, 238, 7, 0], #[]⟩
    let context : Context := ⟨.empty, .empty, .nil⟩
    run context chunk = .error (.unknownInstruction 238 2) ∧
      (traced context chunk).1 <+: chunk.lines ∧
      ∃ line ∈ chunk.lines, line.offset = 2 ∧
        chunk.fetchedText line.fetched =
          "UNKNOWN 0x" ++ Text.padLeft '0' 2 (Text.hexadecimal 238) := by
  intro chunk context
  have stops : run context chunk = .error (.unknownInstruction 238 2) := by
    with_unfolding_all rfl
  obtain ⟨-, begins, -, shows⟩ := run_listed context chunk
  obtain ⟨line, listed, -, -, ⟨hline, text⟩, -⟩ := shows _ stops (.inl rfl)
  exact ⟨stops, begins, line, listed, congrArg Chunk.Line.offset hline, text⟩

end Machine

end ExprMachine
