/-
  ExprMachine.Proofs.Value.Induction

  Induction over values, and which values stand inside a value. The items of a list and
  the values of a map's entries are its parts; they are reached through membership, so
  that no proof has to recurse over values and lists of values at once.
-/
import ExprMachine.Value.Basic

namespace ExprMachine.Value

/-- `Part part value`: the one value is an item of the other or stands in an entry of it. -/
inductive Part : Value → Value → Prop where
  | item {item items} (mem : item ∈ items) : Part item (.list items)
  | entry {entry entries} (mem : entry ∈ entries) : Part entry.2 (.map entries)

/-- What holds of every value whose parts have it holds of all values. -/
@[elab_as_elim, induction_eliminator]
theorem inductionOn {motive : Value → Prop}
    (step : ∀ value, (∀ part, Part part value → motive part) → motive value)
    (value : Value) : motive value := by
  refine @Value.rec motive (fun items => ∀ item ∈ items, motive item)
    (fun entries => ∀ entry ∈ entries, motive entry.2) (fun entry => motive entry.2)
    ?nil ?bool ?int ?float ?text ?list ?map ?function ?host ?noItems ?items ?noEntries
    ?entries ?pair value
  case list =>
    intro items each
    refine step _ fun part h => ?_
    cases h with
    | item mem => exact each _ mem
  case map =>
    intro entries each
    refine step _ fun part h => ?_
    cases h with
    | entry mem => exact each _ mem
  case noItems => exact fun _ h => nomatch h
  case noEntries => exact fun _ h => nomatch h
  case items =>
    intro first others hfirst hothers
    exact List.forall_mem_cons.2 ⟨hfirst, hothers⟩
  case entries =>
    intro first others hfirst hothers
    exact List.forall_mem_cons.2 ⟨hfirst, hothers⟩
  case pair => exact fun _ _ h => h
  all_goals intros; exact step _ fun _ h => nomatch h

-- ============================================================================
-- Values inside a value
-- ============================================================================

/-- `Occurs inner value`: the one value is the other or stands somewhere inside it. -/
inductive Occurs (inner : Value) : Value → Prop where
  | self : Occurs inner inner
  | part {part value} (part_of : Part part value) (within : Occurs inner part) :
      Occurs inner value

/-- Whether no map inside a value has a key twice. -/
def KeysDistinct (value : Value) : Prop :=
  ∀ entries, Occurs (.map entries) value → (entries.map Prod.fst).Nodup

theorem KeysDistinct.part {part value : Value} (h : KeysDistinct value)
    (part_of : Part part value) : KeysDistinct part :=
  fun entries within => h entries (.part part_of within)

theorem KeysDistinct.keys {entries : List (String × Value)} (h : KeysDistinct (.map entries)) :
    (entries.map Prod.fst).Nodup :=
  h entries .self

theorem keysDistinct_map {entries : List (String × Value)} :
    KeysDistinct (.map entries) ↔
      (entries.map Prod.fst).Nodup ∧ ∀ entry ∈ entries, KeysDistinct entry.2 := by
  constructor
  · exact fun h => ⟨h.keys, fun entry mem => h.part (.entry mem)⟩
  · rintro ⟨keys, h⟩ others within
    cases within with
    | self => exact keys
    | part part_of within =>
      cases part_of with
      | entry mem => exact h _ mem others within

theorem keysDistinct_list {items : List Value} :
    KeysDistinct (.list items) ↔ ∀ item ∈ items, KeysDistinct item := by
  constructor
  · exact fun h item mem => h.part (.item mem)
  · intro h entries within
    cases within with
    | part part_of within =>
      cases part_of with
      | item mem => exact h _ mem entries within

theorem keysDistinct_of_no_parts {value : Value} (h : ∀ part, ¬ Part part value) :
    KeysDistinct value := by
  intro entries within
  cases within with
  | self =>
    cases entries with
    | nil => exact .nil
    | cons entry entries => exact absurd (.entry List.mem_cons_self) (h entry.2)
  | part part_of _ => exact absurd part_of (h _)

@[simp] theorem keysDistinct_nil : KeysDistinct .nil := keysDistinct_of_no_parts nofun

@[simp] theorem keysDistinct_bool (value : Bool) : KeysDistinct (.bool value) :=
  keysDistinct_of_no_parts nofun

@[simp] theorem keysDistinct_int (value : Int64) : KeysDistinct (.int value) :=
  keysDistinct_of_no_parts nofun

@[simp] theorem keysDistinct_float (value : Float) : KeysDistinct (.float value) :=
  keysDistinct_of_no_parts nofun

@[simp] theorem keysDistinct_text (value : String) : KeysDistinct (.text value) :=
  keysDistinct_of_no_parts nofun

end ExprMachine.Value
