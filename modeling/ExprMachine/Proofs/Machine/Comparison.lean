/-
  ExprMachine.Proofs.Machine.Comparison

  The comparisons of the standard language. Equality is built into the machine, and the
  ordering operators have an overload for every pair of types; all five answer by one
  order of the two operands, so that they obey the laws of a total preorder, except that
  what is not a number is neither less than, equal to nor greater than anything.
-/
import ExprMachine.Machine.Run
import ExprMachine.Proofs.Value.Order

namespace ExprMachine

open Value (Comparable IsNaN order?)

-- ============================================================================
-- The overloads of the ordering operators
-- ============================================================================

namespace Registry

/-- The ordering operators, and the orders of their operands for which they hold. -/
def orderings : List (String × (Ordering → Bool)) :=
  [("<", Ordering.isLT), (">", Ordering.isGT), ("<=", Ordering.isLE), (">=", Ordering.isGE)]

theorem overloads_standard {symbol : String} {test : Ordering → Bool}
    (h : (symbol, test) ∈ orderings) :
    standard.overloads symbol = (ordering symbol test).map Prod.snd := by
  simp only [orderings, List.mem_cons, Prod.mk.injEq, List.not_mem_nil, or_false] at h
  rcases h with ⟨rfl, rfl⟩ | ⟨rfl, rfl⟩ | ⟨rfl, rfl⟩ | ⟨rfl, rfl⟩ <;> rfl

end Registry

/-- Whichever overload an ordering operator has for two values, it tests their order. -/
theorem Context.applyOperator_ordering {context : Context}
    (hstandard : context.operators = .standard) {symbol : String} {test : Ordering → Bool}
    (h : (symbol, test) ∈ Registry.orderings) {a b : Value} (comparable : Comparable a b) :
    context.applyOperator symbol a b = .ok (.bool ((order? a b).any test)) := by
  unfold Context.applyOperator Registry.resolve?
  rw [hstandard, Registry.overloads_standard h]
  -- The kinds pick the overload, one for each pair of types.
  cases comparable with
  | numbers left right =>
    cases left with
    | int n =>
      cases right with
      | int m => rw [Value.order?_int_int]; rfl
      | float y => rw [Value.order?_int_float]; rfl
    | float x =>
      cases right with
      | int m => rw [Value.order?_float_int]; rfl
      | float y => rw [Value.order?_float_float]; rfl
  | texts => rfl

-- ============================================================================
-- The instructions
-- ============================================================================

namespace Machine

/-- The orders of its operands for which an instruction that compares them holds. -/
def test? : Opcode → Option (Ordering → Bool)
  | .less => some Ordering.isLT
  | .equal => some Ordering.isEq
  | .greater => some Ordering.isGT
  | .lessEqual => some Ordering.isLE
  | .greaterEqual => some Ordering.isGE
  | _ => none

/-- The instructions that compare two values. -/
def comparisons : List Opcode := [.less, .equal, .greater, .lessEqual, .greaterEqual]

/-- The truth value that an instruction leaves in place of two operands. -/
def verdict (context : Context) (op : Opcode) (left right : Value) : Bool :=
  match step context #[] 0 op 0 [right, left] with
  | .ok [.bool truth] => truth
  | _ => false

theorem exists_test {op : Opcode} (h : op ∈ comparisons) : ∃ test, test? op = some test := by
  simp only [comparisons, List.mem_cons, List.not_mem_nil, or_false] at h
  rcases h with rfl | rfl | rfl | rfl | rfl <;> exact ⟨_, rfl⟩

variable {context : Context} {op : Opcode} {test : Ordering → Bool} {a b c : Value}

/-- An instruction that compares tests the order of its operands. -/
theorem step_comparison (hstandard : context.operators = .standard) (h : test? op = some test)
    (comparable : Comparable a b) (constants : Array Constant) (offset index : Nat)
    (stack : Stack) :
    step context constants offset op index (b :: a :: stack) =
      .ok (.bool ((order? a b).any test) :: stack) := by
  have overloaded {symbol : String} {test : Ordering → Bool}
      (hsymbol : (symbol, test) ∈ Registry.orderings) :
      stepOverloaded context symbol offset (b :: a :: stack) =
        .ok (.bool ((order? a b).any test) :: stack) := by
    simp only [stepOverloaded, popPair, Context.applyOperator_ordering hstandard hsymbol comparable]
  cases op
  case less | greater | lessEqual | greaterEqual =>
    cases h
    exact overloaded (by simp [Registry.orderings])
  case equal =>
    cases h
    simp only [step, stepTruth, popPair, Value.looseEq_eq_order? comparable]
    cases order? a b with
    | none => rfl
    | some order => cases order <;> rfl
  all_goals cases h

theorem verdict_eq (hstandard : context.operators = .standard) (h : test? op = some test)
    (comparable : Comparable a b) : verdict context op a b = (order? a b).any test := by
  rw [verdict, step_comparison hstandard h comparable]

/-- The verdict is what the machine answers, on whatever stack and wherever the instruction
    stands. -/
theorem step_verdict (hstandard : context.operators = .standard) (h : op ∈ comparisons)
    (comparable : Comparable a b) (constants : Array Constant) (offset index : Nat)
    (stack : Stack) :
    step context constants offset op index (b :: a :: stack) =
      .ok (.bool (verdict context op a b) :: stack) := by
  obtain ⟨test, htest⟩ := exists_test h
  rw [verdict_eq hstandard htest comparable, step_comparison hstandard htest comparable]

-- ============================================================================
-- The laws
-- ============================================================================

/-- Of two numbers, or of two texts, one comes first or they are equal. -/
theorem verdict_exclusive (hstandard : context.operators = .standard)
    (comparable : Comparable a b) (left : ¬ IsNaN a) (right : ¬ IsNaN b) :
    ([.less, .equal, .greater].map (verdict context · a b)).count true = 1 := by
  have answer (op : Opcode) {test} (h : test? op = some test) :
      verdict context op a b = (order? a b).any test := verdict_eq hstandard h comparable
  rw [List.map_cons, List.map_cons, List.map_cons, List.map_nil, answer .less rfl,
    answer .equal rfl, answer .greater rfl]
  cases horder : order? a b with
  | none => exact absurd ((Value.order?_eq_none_iff comparable).1 horder) (by simp [left, right])
  | some order => cases order <;> rfl

theorem verdict_of_isNaN (hstandard : context.operators = .standard)
    (comparable : Comparable a b) (h : IsNaN a ∨ IsNaN b) :
    ∀ op ∈ comparisons, verdict context op a b = false := by
  intro op hop
  obtain ⟨test, htest⟩ := exists_test hop
  rw [verdict_eq hstandard htest comparable, (Value.order?_eq_none_iff comparable).2 h]
  rfl

theorem verdict_lessEqual (hstandard : context.operators = .standard)
    (comparable : Comparable a b) :
    verdict context .lessEqual a b =
      (verdict context .less a b || verdict context .equal a b) := by
  rw [verdict_eq hstandard rfl comparable, verdict_eq hstandard rfl comparable,
    verdict_eq hstandard rfl comparable]
  cases order? a b with
  | none => rfl
  | some order => cases order <;> rfl

/-- A comparison of the operands in the other order tests the reversed order. -/
theorem verdict_swap (hstandard : context.operators = .standard) {flipped : Opcode}
    {reversed : Ordering → Bool} (h : test? op = some test)
    (hflipped : test? flipped = some reversed) (hswap : ∀ order, test order = reversed order.swap)
    (comparable : Comparable a b) : verdict context op a b = verdict context flipped b a := by
  rw [verdict_eq hstandard h comparable, verdict_eq hstandard hflipped comparable.symm,
    Value.order?_swap comparable, Option.any_map]
  exact congrArg (fun p => (order? a b).any p) (funext hswap)

/-- A comparison is transitive when its test passes on from two orders to the composed one. -/
theorem verdict_trans (hstandard : context.operators = .standard) (h : test? op = some test)
    (hab : Comparable a b) (hbc : Comparable b c)
    (passes : ∀ {first second order : Ordering}, (first = .lt → second = .lt → order = .lt) →
      (first.isLE = true → second.isLE = true → order.isLE = true) →
      test first = true → test second = true → test order = true)
    (first : verdict context op a b = true) (second : verdict context op b c = true) :
    verdict context op a c = true := by
  rw [verdict_eq hstandard h hab, Option.any_eq_true] at first
  rw [verdict_eq hstandard h hbc, Option.any_eq_true] at second
  obtain ⟨below, hbelow, hfirst⟩ := first
  obtain ⟨above, habove, hsecond⟩ := second
  obtain ⟨order, horder, strict, weak⟩ := Value.order?_compose hab hbc hbelow habove
  rw [verdict_eq hstandard h (hab.trans hbc), horder]
  exact passes strict weak hfirst hsecond

/-- The comparisons of numbers, integers and floats alike, and those of texts obey the laws
    of one total preorder. The machine always answers them; what is not a number compares
    with nothing. -/
theorem comparisons_cohere (hstandard : context.operators = .standard)
    (hab : Comparable a b) (hbc : Comparable b c) :
    (∀ op ∈ comparisons, ∀ constants offset index stack,
      step context constants offset op index (b :: a :: stack) =
        .ok (.bool (verdict context op a b) :: stack)) ∧
    (¬ IsNaN a → ¬ IsNaN b →
      ([.less, .equal, .greater].map (verdict context · a b)).count true = 1) ∧
    (IsNaN a ∨ IsNaN b → ∀ op ∈ comparisons, verdict context op a b = false) ∧
    verdict context .lessEqual a b = (verdict context .less a b || verdict context .equal a b) ∧
    verdict context .greater a b = verdict context .less b a ∧
    verdict context .greaterEqual a b = verdict context .lessEqual b a ∧
    (verdict context .less a b = true → verdict context .less b c = true →
      verdict context .less a c = true) ∧
    (verdict context .lessEqual a b = true → verdict context .lessEqual b c = true →
      verdict context .lessEqual a c = true) := by
  refine ⟨fun op h => step_verdict hstandard h hab, verdict_exclusive hstandard hab,
    verdict_of_isNaN hstandard hab, verdict_lessEqual hstandard hab,
    ?greater, ?greaterEqual, ?less, ?lessEqual⟩
  case greater =>
    exact verdict_swap hstandard rfl rfl (fun order => by cases order <;> rfl) hab
  case greaterEqual =>
    exact verdict_swap hstandard rfl rfl (fun order => by cases order <;> rfl) hab
  case less =>
    refine verdict_trans hstandard rfl hab hbc fun strict _ hfirst hsecond => ?_
    rw [Ordering.isLT_iff_eq_lt] at *
    exact strict hfirst hsecond
  case lessEqual =>
    exact verdict_trans hstandard rfl hab hbc fun _ weak hfirst hsecond => weak hfirst hsecond

/-- An integer that no float is, the next float, and an integer above that. -/
theorem comparisons_cohere_neighbours :
    let context : Context := ⟨.empty, .standard, .nil⟩
    let a : Value := .int 9007199254740993
    let b : Value := .float 9007199254740994.0
    let c : Value := .int 9007199254740995
    context.operators = .standard ∧ Comparable a b ∧ Comparable b c ∧
      verdict context .less a b = true ∧ verdict context .less b c = true ∧
      verdict context .less a c = true ∧ verdict context .greater b a = true := by
  intro context a b c
  have hab : Comparable a b := .numbers (.int _) (.float _)
  have hbc : Comparable b c := .numbers (.float _) (.int _)
  have first : verdict context .less a b = true := by decide +kernel
  have second : verdict context .less b c = true := by decide +kernel
  have hstandard : context.operators = .standard := rfl
  obtain ⟨-, -, -, -, -, -, trans, -⟩ := comparisons_cohere hstandard hab hbc
  obtain ⟨-, -, -, -, greater, -⟩ := comparisons_cohere hstandard hab.symm hab
  exact ⟨hstandard, hab, hbc, first, second, trans first second, greater.trans first⟩

end Machine

end ExprMachine
