/-
  ExprMachine.Proofs.Machine.Membership

  Membership in a list that is written out is a disjunction of equalities. The disjunction
  evaluates the sought value again for every item, with the same outcome each time, so that
  both programs fail at the same part if they fail. Membership compares every item with the
  sought value and the equalities compare the sought value with every item, which makes no
  difference for values that have no key twice in a map.
-/
import ExprMachine.Evaluation
import ExprMachine.Proofs.Bytecode.Constants
import ExprMachine.Proofs.Expr.DistinctKeys
import ExprMachine.Proofs.Machine.Compiled

namespace ExprMachine

-- ============================================================================
-- Disjunctions of equalities
-- ============================================================================

namespace Expr

/-- `tree or needle == item`. -/
def orEquals (needle tree item : Expr) : Expr :=
  .binary "or" tree (.binary "==" needle item)

/-- `needle == first or needle == second or …`, grouped to the left as `or` is read. -/
def equalsAny (needle first : Expr) (others : List Expr) : Expr :=
  others.foldl (orEquals needle) (.binary "==" needle first)

theorem listsFit_foldl_orEquals {needle tree : Expr} {others : List Expr}
    (hneedle : needle.listsFit = true) (htree : tree.listsFit = true)
    (hothers : ∀ item ∈ others, item.listsFit = true) :
    (others.foldl (orEquals needle) tree).listsFit = true := by
  induction others generalizing tree with
  | nil => exact htree
  | cons item others ih =>
    rw [List.forall_mem_cons] at hothers
    exact ih (by simp [orEquals, listsFit, hneedle, htree, hothers.1]) hothers.2

theorem listsFit_equalsAny {needle first : Expr} {others : List Expr}
    (h : (Expr.binary "in" needle (.list (first :: others))).listsFit = true) :
    (equalsAny needle first others).listsFit = true := by
  simp only [listsFit, allListsFit, Bool.and_eq_true, allListsFit_iff] at h
  obtain ⟨hneedle, -, hfirst, hothers⟩ := h
  exact listsFit_foldl_orEquals hneedle (by simp [listsFit, hneedle, hfirst]) hothers

-- ============================================================================
-- Evaluation
-- ============================================================================

variable {context : Context} {needle tree : Expr}

theorem eval_equals {value : Value} (hneedle : eval context needle = .ok value) (item : Expr) :
    eval context (.binary "==" needle item) =
      (eval context item).map fun other => .bool (value.looseEq other) := by
  rw [eval, hneedle]
  cases eval context item <;> rfl

theorem eval_orEquals {value : Value} {found : Bool}
    (hneedle : eval context needle = .ok value) (htree : eval context tree = .ok (.bool found))
    (item : Expr) :
    eval context (orEquals needle tree item) =
      (eval context item).map fun other => .bool (found || value.looseEq other) := by
  rw [orEquals, eval, htree, eval_equals hneedle]
  cases eval context item <;> rfl

/-- What has no value has none with further equalities either. -/
theorem eval_foldl_orEquals_error {error : RunError} (htree : eval context tree = .error error)
    (others : List Expr) : eval context (others.foldl (orEquals needle) tree) = .error error := by
  induction others generalizing tree with
  | nil => exact htree
  | cons item others ih => exact ih (by rw [orEquals, eval, htree]; rfl)

/-- Every further item can turn up the sought value, or have no value itself. -/
theorem eval_foldl_orEquals {value : Value} {found : Bool}
    (hneedle : eval context needle = .ok value) (htree : eval context tree = .ok (.bool found))
    (others : List Expr) :
    eval context (others.foldl (orEquals needle) tree) =
      (evalAll context others).map fun values => .bool (found || values.any value.looseEq) := by
  -- What was found so far is the truth of the tree that the fold has built up.
  induction others generalizing tree found with
  | nil =>
    rw [List.foldl_nil, htree, evalAll, Except.map, List.any_nil, Bool.or_false]
  | cons item others ih =>
    have hitem := eval_orEquals hneedle htree item
    rw [List.foldl_cons, evalAll]
    cases hvalue : eval context item with
    | error error =>
      rw [hvalue] at hitem
      exact eval_foldl_orEquals_error hitem others
    | ok other =>
      rw [hvalue] at hitem
      rw [ih hitem]
      cases evalAll context others with
      | error error => rfl
      | ok values => simp [Except.map, bind, Except.bind, pure, Except.pure, Bool.or_assoc]

/-- The sought value is evaluated first, then the items. -/
theorem eval_equalsAny (needle first : Expr) (others : List Expr) :
    eval context (equalsAny needle first others) = (do
      let value ← eval context needle
      let values ← evalAll context (first :: others)
      return .bool (values.any value.looseEq)) := by
  rw [equalsAny, evalAll]
  cases hneedle : eval context needle with
  | error error => exact eval_foldl_orEquals_error (by rw [eval, hneedle]; rfl) others
  | ok value =>
    have hequals := eval_equals hneedle first
    cases hfirst : eval context first with
    | error error =>
      rw [hfirst] at hequals
      exact eval_foldl_orEquals_error hequals others
    | ok other =>
      rw [hfirst] at hequals
      rw [eval_foldl_orEquals hneedle hequals]
      cases evalAll context others <;> rfl

theorem eval_in_list (needle : Expr) (items : List Expr) :
    eval context (.binary "in" needle (.list items)) = (do
      let value ← eval context needle
      let values ← evalAll context items
      return .bool (values.any (·.looseEq value))) := by
  rw [eval, eval]
  cases eval context needle with
  | error error => rfl
  | ok value => cases evalAll context items <;> rfl

/-- Membership in a list that is written out has the outcome of the disjunction. -/
theorem eval_membership (distinct : context.KeysDistinct) (needle first : Expr)
    (others : List Expr) :
    eval context (.binary "in" needle (.list (first :: others))) =
      eval context (equalsAny needle first others) := by
  rw [eval_in_list, eval_equalsAny]
  cases hneedle : eval context needle with
  | error error => rfl
  | ok value =>
    cases hitems : evalAll context (first :: others) with
    | error error => rfl
    | ok values =>
      have alike : values.any (·.looseEq value) = values.any value.looseEq := by
        rw [Bool.eq_iff_iff, List.any_eq_true, List.any_eq_true]
        refine exists_congr fun item => and_congr_right fun mem => ?_
        rw [Value.looseEq_comm (keysDistinct_evalAll distinct hitems item mem)
          (keysDistinct_eval distinct hneedle)]
      simp only [bind, Except.bind, alike]

end Expr

-- ============================================================================
-- Runs
-- ============================================================================

namespace Machine

/-- `needle in [first, …]` and `needle == first or …` have the same value or the same error,
    in every environment and with all overloads, where every map has its keys once. -/
theorem run_membership {context : Context} (distinct : context.KeysDistinct)
    {needle first : Expr} {others : List Expr} {chunk other : Chunk}
    (fits : (Expr.binary "in" needle (.list (first :: others))).listsFit = true)
    (compiled : (Expr.binary "in" needle (.list (first :: others))).compile = .ok chunk)
    (compiled' : (Expr.equalsAny needle first others).compile = .ok other) :
    run context chunk = run context other := by
  rw [run_eq_eval fits compiled, run_eq_eval (Expr.listsFit_equalsAny fits) compiled']
  exact Expr.eval_membership distinct needle first others

/-- A map is sought in a list where it stands last, with its keys in another order. -/
theorem run_membership_map :
    let needle : Expr := .identifier "x"
    let first : Expr := .binary "+" (.int 1) (.int 2)
    let others : List Expr := [.nil, .identifier "y"]
    let context : Context := ⟨.empty, .standard, .map
      [("x", .map [("a", .int 1), ("b", .int 2)]), ("y", .map [("b", .int 2), ("a", .int 1)])]⟩
    Source.expr "x in [1 + 2, nil, y]" = .ok (.binary "in" needle (.list (first :: others))) ∧
    Source.expr "x == 1 + 2 or x == nil or x == y" = .ok (.equalsAny needle first others) ∧
    ∃ chunk other, context.KeysDistinct ∧
      (Expr.binary "in" needle (.list (first :: others))).listsFit = true ∧
      (Expr.binary "in" needle (.list (first :: others))).compile = .ok chunk ∧
      (Expr.equalsAny needle first others).compile = .ok other ∧
      run context chunk = .ok (.bool true) ∧ run context other = .ok (.bool true) := by
  intro needle first others context
  have inner (n m : Int64) {key key' : String} (apart : key ≠ key') :
      (Value.map [(key, .int n), (key', .int m)]).KeysDistinct :=
    Value.keysDistinct_map.2 ⟨by simpa using apart, by simp⟩
  have distinct : context.KeysDistinct := Context.keysDistinct_standard
    (Value.keysDistinct_map.2 ⟨by decide, by simp [inner]⟩)
  have fits : (Expr.binary "in" needle (.list (first :: others))).listsFit = true := rfl
  obtain ⟨chunk, compiled⟩ := Expr.exists_compile_iff.2
    (show (Expr.binary "in" needle (.list (first :: others))).supported = true ∧ _ from
      ⟨rfl, by decide⟩)
  obtain ⟨other, compiled'⟩ := Expr.exists_compile_iff.2
    (show (Expr.equalsAny needle first others).supported = true ∧ _ from ⟨rfl, by decide⟩)
  have found : run context chunk = .ok (.bool true) := by
    rw [run_eq_eval fits compiled]
    rfl
  exact ⟨by with_unfolding_all rfl, by with_unfolding_all rfl, chunk, other, distinct, fits,
    compiled, compiled', found, run_membership distinct fits compiled compiled' ▸ found⟩

end Machine

end ExprMachine
