/-
  ExprMachine.Proofs.Operators.Dispatch

  Dispatch by kinds makes the reading of operands infallible. What the operands' kinds are
  resolved to is the earliest registration for them; if it is a typed one, both operands are
  read and the function answers. Only a call that goes past the dispatch can be refused.
-/
import ExprMachine.Proofs.Operators.History

namespace ExprMachine

-- ============================================================================
-- Types of operands
-- ============================================================================

/-- The types that typed registrations name. -/
inductive OperandType where
  | int
  | float
  | bool
  | text
  | list
  | map
deriving DecidableEq, Repr

namespace OperandType

/-- What the values of a type hold. -/
def Carrier : OperandType → Type
  | .int => Int64
  | .float => Float
  | .bool => Bool
  | .text => String
  | .list => List Value
  | .map => List (String × Value)

/-- How values are read as ones of the type. -/
def operand : (type : OperandType) → Operand type.Carrier
  | .int => .int
  | .float => .float
  | .bool => .bool
  | .text => .text
  | .list => .list
  | .map => .map

/-- A value is read as one of a type just when its kind is the one of the type. -/
theorem isSome_read? (type : OperandType) (value : Value) :
    (type.operand.read? value).isSome = decide (value.kind = type.operand.kind) := by
  cases type with
  | int | float | bool | text | list | map => cases value <;> rfl

theorem narrow_of_kind_eq {type : OperandType} {value : Value}
    (h : value.kind = type.operand.kind) : ∃ read, type.operand.narrow value = .ok read := by
  obtain ⟨read, hread⟩ := Option.isSome_iff_exists.1
    ((isSome_read? type value).trans (decide_eq_true h))
  refine ⟨read, ?_⟩
  rw [Operand.narrow, hread]

theorem narrow_of_kind_ne {type : OperandType} {value : Value}
    (h : value.kind ≠ type.operand.kind) :
    type.operand.narrow value = .error (.mismatch type.operand.kind value.kind) := by
  have none : type.operand.read? value = none := by
    have unread := (isSome_read? type value).trans (decide_eq_false h)
    rwa [Option.isSome_eq_false_iff, Option.isNone_iff_eq_none] at unread
  rw [Operand.narrow, none]

end OperandType

-- ============================================================================
-- Registrations
-- ============================================================================

/-- What is registered for a symbol: a function on operands of two types, or one on values
    for two kinds. -/
inductive Registration where
  | typed (left right : OperandType)
      (function : left.Carrier → right.Carrier → Except CallError Value)
  | raw (left right : Kind) (function : Value → Value → Except CallError Value)

namespace Registration

/-- The overload that a registration adds. -/
def overload : Registration → Overload
  | .typed left right function => .ofTyped left.operand right.operand function
  | .raw left right function => ⟨left, right, function⟩

/-- Whether what a registered function itself answers to two values is this. Both values are
    read first if it is typed. -/
def Answers (registration : Registration) (a b : Value) (answer : Except CallError Value) : Prop :=
  match registration with
  | .typed left right function => ∃ x y, left.operand.narrow a = .ok x ∧
      right.operand.narrow b = .ok y ∧ answer = function x y
  | .raw _ _ function => answer = function a b

/-- A function is called if its kinds are those of the operands. -/
theorem answers_of_kinds {registration : Registration} {a b : Value}
    (left : a.kind = registration.overload.left) (right : b.kind = registration.overload.right) :
    registration.Answers a b (registration.overload.apply a b) := by
  cases registration with
  | raw _ _ function => rfl
  | typed leftType rightType function =>
    obtain ⟨x, hx⟩ := OperandType.narrow_of_kind_eq left
    obtain ⟨y, hy⟩ := OperandType.narrow_of_kind_eq right
    refine ⟨x, y, hx, hy, ?_⟩
    show (Overload.ofTyped leftType.operand rightType.operand function).apply a b = _
    simp only [Overload.ofTyped, hx, hy]

section

variable {left right : OperandType} {a b : Value}
  {function : left.Carrier → right.Carrier → Except CallError Value}

theorem apply_of_left_ne (h : a.kind ≠ left.operand.kind) :
    (typed left right function).overload.apply a b =
      .error (.mismatch left.operand.kind a.kind) := by
  show (Overload.ofTyped left.operand right.operand function).apply a b = _
  simp only [Overload.ofTyped, OperandType.narrow_of_kind_ne h]

theorem apply_of_right_ne (hleft : a.kind = left.operand.kind)
    (hright : b.kind ≠ right.operand.kind) :
    (typed left right function).overload.apply a b =
      .error (.mismatch right.operand.kind b.kind) := by
  obtain ⟨x, hx⟩ := OperandType.narrow_of_kind_eq hleft
  show (Overload.ofTyped left.operand right.operand function).apply a b = _
  simp only [Overload.ofTyped, hx, OperandType.narrow_of_kind_ne hright]

end

end Registration

-- ============================================================================
-- Dispatch
-- ============================================================================

namespace Registry

/-- The registry of some registrations, one after the other. -/
def ofHistory (history : List (String × Registration)) : Registry :=
  empty.registerAll (history.map fun entry => (entry.1, entry.2.overload))

/-- `Earliest history symbol left right registration`: of the registrations for the symbol and
    the kinds this one came first. -/
def Earliest (history : List (String × Registration)) (symbol : String) (left right : Kind)
    (registration : Registration) : Prop :=
  ∃ before after, history = before ++ (symbol, registration) :: after ∧
    (registration.overload.left = left ∧ registration.overload.right = right) ∧
    ∀ entry ∈ before, ¬ Serves symbol left right (entry.1, entry.2.overload)

theorem entries_ofHistory (history : List (String × Registration)) :
    (ofHistory history).entries = history.map fun entry => (entry.1, entry.2.overload) := by
  rw [ofHistory, entries_registerAll]
  rfl

/-- What is resolved is the overload of the earliest registration. -/
theorem exists_earliest {history : List (String × Registration)} {symbol : String}
    {left right : Kind} {overload : Overload}
    (h : (ofHistory history).resolve? symbol left right = some overload) :
    ∃ registration, Earliest history symbol left right registration ∧
      overload = registration.overload := by
  have entries := entries_ofHistory history
  let serves (entry : String × Registration) : Bool :=
    entry.1 == symbol && entry.2.overload.accepts left right
  have hserves (entry : String × Registration) :
      serves entry = true ↔ Serves symbol left right (entry.1, entry.2.overload) := by
    rw [Bool.and_eq_true, beq_iff_eq, accepts_iff]
    rfl
  cases found : history.find? serves with
  | none =>
    have unserved : (ofHistory history).resolve? symbol left right = none := by
      rw [resolve?_eq_none_iff, entries, List.forall_mem_map]
      intro entry hmem
      rw [← hserves entry]
      exact List.find?_eq_none.1 found entry hmem
    rw [unserved] at h
    cases h
  | some entry =>
    obtain ⟨first, before, after, rfl, earlier⟩ := List.find?_eq_some_iff_append.1 found
    obtain ⟨rfl, kinds⟩ := (hserves entry).1 first
    have unserved : ∀ other ∈ before,
        ¬ Serves entry.1 left right (other.1, other.2.overload) := by
      intro other hmem
      rw [← hserves other]
      simpa using earlier other hmem
    rw [List.map_append, List.map_cons] at entries
    have resolved := resolve?_of_entries entries ⟨rfl, kinds⟩ (List.forall_mem_map.2 unserved)
    refine ⟨entry.2, ⟨before, after, rfl, kinds, unserved⟩, ?_⟩
    exact Option.some.inj (h.symm.trans resolved)

/-- A call that the registry resolves is answered by the function of the earliest
    registration for the operands, which are read without fail if it is typed. A typed
    overload that is called past the registry refuses the left operand of another kind, or
    else the right one, whatever its function is. -/
theorem resolve?_answers (history : List (String × Registration)) (symbol : String)
    (a b : Value) :
    (∀ overload, (ofHistory history).resolve? symbol a.kind b.kind = some overload →
      ∃ registration, Earliest history symbol a.kind b.kind registration ∧
        overload = registration.overload ∧ registration.Answers a b (overload.apply a b)) ∧
    ∀ (left right : OperandType) (function : left.Carrier → right.Carrier → Except CallError Value),
      (a.kind ≠ left.operand.kind →
        (Registration.typed left right function).overload.apply a b =
          .error (.mismatch left.operand.kind a.kind)) ∧
      (a.kind = left.operand.kind → b.kind ≠ right.operand.kind →
        (Registration.typed left right function).overload.apply a b =
          .error (.mismatch right.operand.kind b.kind)) := by
  refine ⟨?_, fun left right function => ⟨?_, ?_⟩⟩
  · intro overload resolved
    obtain ⟨registration, earliest, rfl⟩ := exists_earliest resolved
    have ⟨_, _, _, ⟨hleft, hright⟩, _⟩ := earliest
    exact ⟨registration, earliest, rfl, Registration.answers_of_kinds hleft.symm hright.symm⟩
  · exact Registration.apply_of_left_ne
  · exact Registration.apply_of_right_ne

/-- Of two registrations for sums of integers the first one answers, a typed one. Called past
    the registry it refuses an operand that is none. -/
theorem resolve?_answers_sum :
    let sum : Registration := .typed .int .int fun (x y : Int64) => .ok (.int (x + y))
    let history := [("+", sum), ("+", .raw .int .int fun _ _ => .ok .nil)]
    (ofHistory history).resolve? "+" .int .int = some sum.overload ∧
      (∃ registration, Earliest history "+" .int .int registration ∧
        sum.overload = registration.overload ∧
        registration.Answers (.int 1) (.int 2) (.ok (.int 3))) ∧
      sum.overload.apply (.int 1) .nil = .error (.mismatch .int .nil) := by
  intro sum history
  have resolved : (ofHistory history).resolve? "+" .int .int = some sum.overload := rfl
  have refused : Value.nil.kind ≠ OperandType.int.operand.kind := by decide
  refine ⟨resolved, ?_, ?_⟩
  · exact (resolve?_answers history "+" (.int 1) (.int 2)).1 sum.overload resolved
  · exact ((resolve?_answers history "+" (.int 1) .nil).2 .int .int _).2 rfl refused

/-- An object whose type has the name of a kind is of a kind of its own: past the registry it
    is refused as a text, and for it the registration for its type is resolved. -/
example (function : String → String → Except CallError Value) (answer : Value) :
    let object := Value.host ⟨0, "text"⟩
    let history : List (String × Registration) :=
      [("+", .typed .text .text function),
       ("+", .raw (.host "text") .text fun _ _ => .ok answer)]
    (Registration.typed .text .text function).overload.apply object (.text "b") =
        .error (.mismatch .text (.host "text")) ∧
      ((ofHistory history).resolve? "+" object.kind .text).map (·.apply object (.text "b")) =
        some (.ok answer) :=
  ⟨rfl, rfl⟩

end Registry

end ExprMachine
