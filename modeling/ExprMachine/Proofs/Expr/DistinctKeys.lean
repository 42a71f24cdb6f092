/-
  ExprMachine.Proofs.Expr.DistinctKeys

  No evaluation makes a map that has a key twice. Expressions make numbers, texts, truth
  values and lists themselves; every map comes from the program around the machine, out of
  its environment, its objects, its functions or its overloads. As long as these only hand
  over maps with distinct keys, so does every expression.
-/
import ExprMachine.Proofs.Expr.Evaluator
import ExprMachine.Proofs.Operators.Arithmetic
import ExprMachine.Proofs.Value.Equality

namespace ExprMachine

-- ============================================================================
-- Programs that hand over maps with distinct keys
-- ============================================================================

/-- `Offers shape value`: the value can be reached in an object of this shape. -/
inductive Shape.Offers : Shape → Value → Prop where
  | item {length item? position value} (h : item? position = some value) :
      Offers (.indexed length item?) value
  | entry {value? missing hasKey key value} (h : value? key = some value) :
      Offers (.keyed value? missing hasKey) value
  | missing {value? missing hasKey} : Offers (.keyed value? missing hasKey) missing
  | field {field? method? name value} (h : field? name = some value) :
      Offers (.record field? method?) value

/-- Whether no map has a key twice that the surrounding program hands over: in the
    environment, in an object, as the answer of a function or as that of an overload. -/
structure Context.KeysDistinct (context : Context) : Prop where
  environment : context.environment.KeysDistinct
  offered : ∀ object value, (context.host.shape object).Offers value → value.KeysDistinct
  answered : ∀ function arguments value, (∀ argument ∈ arguments, argument.KeysDistinct) →
    context.host.call function arguments = .ok value → value.KeysDistinct
  overloaded : ∀ entry ∈ context.operators.entries, ∀ left right value, left.KeysDistinct →
    right.KeysDistinct → entry.2.apply left right = .ok value → value.KeysDistinct

-- ============================================================================
-- Operations
-- ============================================================================

namespace Value

theorem keysDistinct_getD {found : Option Value}
    (h : ∀ value, found = some value → KeysDistinct value) : KeysDistinct (found.getD .nil) := by
  cases found with
  | none => exact keysDistinct_nil
  | some value => exact h value rfl

theorem keysDistinct_of_negate {operand value : Value} (h : operand.negate = .ok value) :
    KeysDistinct value := by
  unfold negate at h
  split at h
  · split at h
    · cases h
    · cases h
      exact keysDistinct_int _
  · cases h
    exact keysDistinct_float _
  · cases h

end Value

namespace Context

variable {context : Context}

theorem KeysDistinct.get (distinct : context.KeysDistinct) {receiver : Value}
    (h : receiver.KeysDistinct) (name : String) :
    (receiver.get context.host name).KeysDistinct := by
  cases receiver with
  | list items =>
    refine Value.keysDistinct_getD fun value found => ?_
    obtain ⟨position, -, found⟩ := Option.bind_eq_some_iff.1 found
    exact h.part (.item (List.mem_of_getElem? found))
  | text content =>
    refine Value.keysDistinct_getD fun value found => ?_
    obtain ⟨c, -, rfl⟩ := Option.map_eq_some_iff.1 found
    exact Value.keysDistinct_text _
  | map entries =>
    refine Value.keysDistinct_getD fun value found => ?_
    exact h.part (.entry (Entries.mem_of_lookup found))
  | host object =>
    have offered := distinct.offered object
    rw [Value.get]
    cases hshape : context.host.shape object with
    | indexed length item? =>
      refine Value.keysDistinct_getD fun value found => ?_
      obtain ⟨position, -, found⟩ := Option.bind_eq_some_iff.1 found
      exact offered value (hshape ▸ .item found)
    | keyed value? missing hasKey =>
      -- A missing key has a value of the object's own instead of nil.
      show ((value? name).getD missing).KeysDistinct
      cases found : value? name with
      | none => exact offered missing (hshape ▸ .missing)
      | some value => exact offered value (hshape ▸ .entry found)
    | record field? method? =>
      refine Value.keysDistinct_getD fun value found => ?_
      exact offered value (hshape ▸ .field found)
    | plain => exact Value.keysDistinct_nil
  | _ => exact Value.keysDistinct_nil

theorem KeysDistinct.invoke (distinct : context.KeysDistinct) {target value : Value}
    {name : String} {arguments : List Value} (hargs : ∀ argument ∈ arguments, argument.KeysDistinct)
    (h : context.invoke target name arguments = .ok value) : value.KeysDistinct := by
  unfold Context.invoke at h
  split at h
  · cases h
  rename_i function _
  split at h
  · rename_i answered
    cases h
    exact distinct.answered function arguments _ hargs answered
  · cases h

theorem KeysDistinct.applyOperator (distinct : context.KeysDistinct) {symbol : String}
    {left right value : Value} (hleft : left.KeysDistinct) (hright : right.KeysDistinct)
    (h : context.applyOperator symbol left right = .ok value) : value.KeysDistinct := by
  unfold Context.applyOperator at h
  split at h
  · cases h
  rename_i overload found
  split at h
  · rename_i answered
    cases h
    have mem := List.mem_of_find?_eq_some found
    simp only [Registry.overloads, List.mem_map, List.mem_filter] at mem
    obtain ⟨entry, ⟨mem, -⟩, rfl⟩ := mem
    exact distinct.overloaded entry mem left right _ hleft hright answered
  · cases h

theorem keysDistinct_of_isMember {needle container value : Value}
    (h : context.isMember needle container = .ok value) : value.KeysDistinct := by
  unfold isMember at h
  split at h
  · cases h
    exact Value.keysDistinct_bool _
  · cases h

theorem keysDistinct_of_applyUnary {symbol : String} {operand value : Value}
    (hoperand : operand.KeysDistinct) (h : context.applyUnary symbol operand = .ok value) :
    value.KeysDistinct := by
  unfold applyUnary at h
  split at h
  · cases h
    exact hoperand
  split at h
  · exact Value.keysDistinct_of_negate h
  split at h
  · cases h
    exact Value.keysDistinct_bool _
  · cases h

theorem KeysDistinct.applyBinary (distinct : context.KeysDistinct) {symbol : String}
    {left right value : Value} (hleft : left.KeysDistinct) (hright : right.KeysDistinct)
    (h : context.applyBinary symbol left right = .ok value) : value.KeysDistinct := by
  unfold Context.applyBinary at h
  split at h
  · cases h
    exact Value.keysDistinct_bool _
  split at h
  · cases h
    exact Value.keysDistinct_bool _
  split at h
  · exact keysDistinct_of_isMember h
  split at h
  · cases h
    exact Value.keysDistinct_bool _
  split at h
  · cases h
    exact Value.keysDistinct_bool _
  · exact distinct.applyOperator hleft hright h

end Context

-- ============================================================================
-- Expressions
-- ============================================================================

namespace Expr

variable {context : Context}

theorem forall_keysDistinct_evalAll {exprs : List Expr}
    (each : ∀ expr ∈ exprs, ∀ value, eval context expr = .ok value → value.KeysDistinct)
    {values : List Value} (h : evalAll context exprs = .ok values) :
    ∀ value ∈ values, value.KeysDistinct := by
  induction exprs generalizing values with
  | nil =>
    cases h
    exact nofun
  | cons expr exprs ih =>
    rw [evalAll] at h
    obtain ⟨first, hfirst, h⟩ := exists_of_bind_ok h
    obtain ⟨others, hothers, h⟩ := exists_of_bind_ok h
    cases h
    rw [List.forall_mem_cons] at each ⊢
    exact ⟨each.1 first hfirst, ih each.2 hothers⟩

/-- Whatever an expression is evaluated to, no map in it has a key twice. -/
theorem keysDistinct_eval (distinct : context.KeysDistinct) {expr : Expr} {value : Value}
    (h : eval context expr = .ok value) : value.KeysDistinct := by
  induction expr generalizing value with
  | int _ =>
    cases h
    exact Value.keysDistinct_int _
  | float _ =>
    cases h
    exact Value.keysDistinct_float _
  | text _ =>
    cases h
    exact Value.keysDistinct_text _
  | bool _ =>
    cases h
    exact Value.keysDistinct_bool _
  | nil =>
    cases h
    exact Value.keysDistinct_nil
  | identifier name =>
    cases h
    exact distinct.get distinct.environment name
  | unary symbol operand ih =>
    obtain ⟨inner, hinner, h⟩ := exists_of_bind_ok h
    exact Context.keysDistinct_of_applyUnary (ih hinner) h
  | binary symbol left right ihleft ihright =>
    obtain ⟨first, hfirst, h⟩ := exists_of_bind_ok h
    obtain ⟨second, hsecond, h⟩ := exists_of_bind_ok h
    exact distinct.applyBinary (ihleft hfirst) (ihright hsecond) h
  | property receiver name ih =>
    obtain ⟨inner, hinner, h⟩ := exists_of_bind_ok h
    cases h
    exact distinct.get (ih hinner) name
  | call name arguments ih =>
    obtain ⟨values, hvalues, h⟩ := exists_of_bind_ok h
    exact distinct.invoke (forall_keysDistinct_evalAll (fun _ mem _ => ih _ mem) hvalues) h
  | methodCall receiver name arguments _ ih =>
    obtain ⟨target, -, h⟩ := exists_of_bind_ok h
    obtain ⟨values, hvalues, h⟩ := exists_of_bind_ok h
    exact distinct.invoke (forall_keysDistinct_evalAll (fun _ mem _ => ih _ mem) hvalues) h
  | list items ih =>
    obtain ⟨values, hvalues, h⟩ := exists_of_bind_ok h
    cases h
    exact Value.keysDistinct_list.2 (forall_keysDistinct_evalAll (fun _ mem _ => ih _ mem) hvalues)

theorem keysDistinct_evalAll (distinct : context.KeysDistinct) {exprs : List Expr}
    {values : List Value} (h : evalAll context exprs = .ok values) :
    ∀ value ∈ values, value.KeysDistinct :=
  forall_keysDistinct_evalAll (fun _ _ _ => keysDistinct_eval distinct) h

end Expr

-- ============================================================================
-- The standard overloads
-- ============================================================================

theorem Overload.exists_of_ofTyped_ok {α β : Type} {left : Operand α} {right : Operand β}
    {operation : α → β → Except CallError Value} {first second value : Value}
    (h : (ofTyped left right operation).apply first second = .ok value) :
    ∃ a b, operation a b = .ok value := by
  unfold ofTyped at h
  dsimp only at h
  split at h
  · cases h
  split at h
  · cases h
  · exact ⟨_, _, h⟩

namespace Registry

theorem keysDistinct_of_checked {result : Int} {value : Value}
    (h : Arithmetic.checked result = .ok value) : value.KeysDistinct := by
  obtain ⟨n, -, rfl⟩ := Arithmetic.checked_eq_ok_iff.1 h
  exact Value.keysDistinct_int n

theorem keysDistinct_of_onInts {symbol : String}
    {operation : Int64 → Int64 → Except CallError Value} (mem : (symbol, operation) ∈ onInts)
    {a b : Int64} {value : Value} (h : operation a b = .ok value) : value.KeysDistinct := by
  simp only [onInts, List.mem_cons, Prod.mk.injEq, List.not_mem_nil, or_false] at mem
  rcases mem with ⟨-, rfl⟩ | ⟨-, rfl⟩ | ⟨-, rfl⟩ | ⟨-, rfl⟩ | ⟨-, rfl⟩ | ⟨-, rfl⟩
  · exact keysDistinct_of_checked h
  · exact keysDistinct_of_checked h
  · exact keysDistinct_of_checked h
  · unfold Arithmetic.div at h
    split at h
    · cases h
    · exact keysDistinct_of_checked h
  · unfold Arithmetic.mod at h
    split at h
    · cases h
    split at h
    · cases h
    · exact keysDistinct_of_checked h
  · unfold Arithmetic.pow at h
    split at h
    · cases h
      exact Value.keysDistinct_float _
    dsimp only at h
    split at h
    · cases h
    split at h
    · cases h
      exact Value.keysDistinct_int _
    · cases h

theorem keysDistinct_of_arithmetic {symbol : String}
    {operation : Int64 → Int64 → Except CallError Value} (mem : (symbol, operation) ∈ onInts)
    {onFloats : Float → Float → Float} {entry : String × Overload}
    (hentry : entry ∈ arithmetic symbol operation onFloats) {left right value : Value}
    (h : entry.2.apply left right = .ok value) : value.KeysDistinct := by
  simp only [arithmetic, List.mem_cons, List.not_mem_nil, or_false] at hentry
  rcases hentry with rfl | rfl | rfl | rfl <;> obtain ⟨a, b, h⟩ := Overload.exists_of_ofTyped_ok h
  · exact keysDistinct_of_onInts mem h
  all_goals
    cases h
    exact Value.keysDistinct_float _

theorem keysDistinct_of_ordering {symbol : String} {test : Ordering → Bool}
    {entry : String × Overload} (hentry : entry ∈ ordering symbol test) {left right value : Value}
    (h : entry.2.apply left right = .ok value) : value.KeysDistinct := by
  simp only [ordering, List.mem_cons, List.not_mem_nil, or_false] at hentry
  rcases hentry with rfl | rfl | rfl | rfl | rfl <;>
    obtain ⟨a, b, h⟩ := Overload.exists_of_ofTyped_ok h
  all_goals
    cases h
    exact Value.keysDistinct_bool _

/-- The standard overloads answer with numbers, texts and truth values. -/
theorem keysDistinct_of_standard {entry : String × Overload} (hentry : entry ∈ standard.entries)
    {left right value : Value} (h : entry.2.apply left right = .ok value) :
    value.KeysDistinct := by
  simp only [standard, List.mem_append, List.mem_singleton] at hentry
  -- Six arithmetic operators, the joining of texts, four orderings.
  rcases hentry with (((((((((hentry | hentry) | hentry) | hentry) | hentry) | hentry) | rfl) |
    hentry) | hentry) | hentry) | hentry
  any_goals exact keysDistinct_of_arithmetic (by simp [onInts]) hentry h
  any_goals exact keysDistinct_of_ordering hentry h
  obtain ⟨a, b, h⟩ := Overload.exists_of_ofTyped_ok h
  cases h
  exact Value.keysDistinct_text _

end Registry

/-- With the standard overloads and no objects or functions around it, all that matters is
    the environment. -/
theorem Context.keysDistinct_standard {environment : Value} (h : environment.KeysDistinct) :
    (⟨.empty, .standard, environment⟩ : Context).KeysDistinct where
  environment := h
  offered _ _ offers := nomatch offers
  answered _ _ _ _ answered := nomatch answered
  overloaded _ mem _ _ _ _ _ answered := Registry.keysDistinct_of_standard mem answered

end ExprMachine
