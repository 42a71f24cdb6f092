/-
  ExprMachine.Proofs.Operators.History

  A registry is the history of its registrations. Of the overloads registered for a
  symbol and two kinds the earliest is resolved, at a place among the overloads of the
  symbol that later registrations do not change.
-/
import ExprMachine.Operators.Registry

namespace ExprMachine.Registry

/-- Adds some overloads, one after the other. -/
def registerAll (registry : Registry) (more : List (String × Overload)) : Registry :=
  more.foldl (fun registry entry => registry.register entry.1 entry.2) registry

/-- Whether a registration is for the symbol and for exactly the two kinds. -/
def Serves (symbol : String) (left right : Kind) (entry : String × Overload) : Prop :=
  entry.1 = symbol ∧ entry.2.left = left ∧ entry.2.right = right

variable {registry : Registry} {more before after : List (String × Overload)}
  {symbol : String} {left right : Kind} {overload : Overload}

-- ============================================================================
-- Overloads in the order of their registration
-- ============================================================================

/-- Registrations follow those that were there before. -/
@[simp] theorem entries_registerAll (registry : Registry) (more : List (String × Overload)) :
    (registry.registerAll more).entries = registry.entries ++ more := by
  induction more generalizing registry with
  | nil => exact (List.append_nil _).symm
  | cons entry more ih =>
    calc (registry.registerAll (entry :: more)).entries
        = (registry.register entry.1 entry.2).entries ++ more := ih _
      _ = registry.entries ++ entry :: more := List.append_assoc _ [entry] more

/-- The overloads of a symbol that were there before stay in front, and its new ones follow
    in their order. -/
theorem overloads_registerAll (registry : Registry) (more : List (String × Overload))
    (symbol : String) :
    (registry.registerAll more).overloads symbol =
      registry.overloads symbol ++ (more.filter (·.1 == symbol)).map (·.2) := by
  rw [overloads, entries_registerAll, List.filter_append, List.map_append, overloads]

-- ============================================================================
-- Resolving
-- ============================================================================

theorem accepts_iff : overload.accepts left right = true ↔
    overload.left = left ∧ overload.right = right := by
  simp [Overload.accepts]

/-- Nothing is resolved just when nothing was registered for the symbol and the kinds. -/
theorem resolve?_eq_none_iff :
    registry.resolve? symbol left right = none ↔
      ∀ entry ∈ registry.entries, ¬ Serves symbol left right entry := by
  rw [resolve?, List.find?_eq_none]
  constructor
  · rintro h entry hmem ⟨hsymbol, hkinds⟩
    refine h entry.2 (List.mem_map.2 ⟨entry, List.mem_filter.2 ⟨hmem, ?_⟩, rfl⟩)
      (accepts_iff.2 hkinds)
    exact beq_iff_eq.2 hsymbol
  · intro h overload hmem accepts
    obtain ⟨entry, hentry, rfl⟩ := List.mem_map.1 hmem
    obtain ⟨hentry, hsymbol⟩ := List.mem_filter.1 hentry
    exact h entry hentry ⟨beq_iff_eq.1 hsymbol, accepts_iff.1 accepts⟩

/-- An overload that is resolved has a place. -/
theorem position?_eq_none_iff :
    registry.position? symbol left right = none ↔ registry.resolve? symbol left right = none := by
  rw [position?, resolve?, List.findIdx?_eq_none_iff, List.find?_eq_none]
  simp

/-- The overloads of the symbol around a registration for it. -/
theorem overloads_of_entries (split : registry.entries = before ++ (symbol, overload) :: after) :
    registry.overloads symbol = (before.filter (·.1 == symbol)).map (·.2) ++
      overload :: (after.filter (·.1 == symbol)).map (·.2) := by
  simp [overloads, split]

/-- Earlier registrations for the symbol are for other kinds. -/
theorem accepts_eq_false_of_mem
    (earliest : ∀ entry ∈ before, ¬ Serves symbol left right entry) :
    ∀ other ∈ (before.filter (·.1 == symbol)).map (·.2), ¬ other.accepts left right = true := by
  intro other hmem accepts
  obtain ⟨entry, hentry, rfl⟩ := List.mem_map.1 hmem
  obtain ⟨hentry, hsymbol⟩ := List.mem_filter.1 hentry
  exact earliest entry hentry ⟨beq_iff_eq.1 hsymbol, accepts_iff.1 accepts⟩

/-- The earliest registration for the symbol and the kinds is resolved. -/
theorem resolve?_of_entries (split : registry.entries = before ++ (symbol, overload) :: after)
    (serves : Serves symbol left right (symbol, overload))
    (earliest : ∀ entry ∈ before, ¬ Serves symbol left right entry) :
    registry.resolve? symbol left right = some overload := by
  rw [resolve?, overloads_of_entries split, List.find?_append,
    List.find?_eq_none.2 (accepts_eq_false_of_mem earliest), Option.none_or]
  have accepts : overload.accepts left right = true := accepts_iff.2 serves.2
  simp [accepts]

/-- It stands behind the earlier overloads of the symbol. -/
theorem position?_of_entries (split : registry.entries = before ++ (symbol, overload) :: after)
    (serves : Serves symbol left right (symbol, overload))
    (earliest : ∀ entry ∈ before, ¬ Serves symbol left right entry) :
    registry.position? symbol left right = some (before.countP (·.1 == symbol)) := by
  have others := accepts_eq_false_of_mem earliest
  rw [position?, overloads_of_entries split, List.findIdx?_append,
    List.findIdx?_eq_none_iff.2 fun other hmem => Bool.eq_false_iff.2 (others other hmem),
    List.findIdx?_cons, if_pos (accepts_iff.2 serves.2)]
  simp [List.countP_eq_length_filter]

/-- What is resolved stays resolved, to the same overload. -/
theorem resolve?_registerAll (h : registry.resolve? symbol left right = some overload) :
    (registry.registerAll more).resolve? symbol left right = some overload := by
  rw [resolve?] at h
  rw [resolve?, overloads_registerAll, List.find?_append, h, Option.some_or]

end ExprMachine.Registry
