/-
  ExprMachine.Proofs.Value.Documents

  What is left of a value that is written as a JSON document and read back, and of a
  document that is taken as a value and written again. Lists and maps keep their shape, so
  both trips are changes of the leaves. A value loses what JSON does not have; a document
  loses the integers that 64 bits hold only without a sign, which become floats.
-/
import ExprMachine.Proofs.Binary64.Finite
import ExprMachine.Proofs.Json.Leaves
import ExprMachine.Proofs.Value.Induction
import ExprMachine.Value.Json

namespace ExprMachine.Value

variable {f : Value → Value}

-- ============================================================================
-- Leaves
-- ============================================================================

mutual

/-- The value with each of its leaves replaced. The order of items, the keys of maps and
    the order of the keys stay. -/
def mapLeaves (f : Value → Value) : Value → Value
  | .nil => f .nil
  | .bool value => f (.bool value)
  | .int value => f (.int value)
  | .float value => f (.float value)
  | .text value => f (.text value)
  | .list items => .list (mapLeavesItems f items)
  | .map entries => .map (mapLeavesEntries f entries)
  | .function callee => f (.function callee)
  | .host object => f (.host object)

/-- The items of a list with their leaves replaced. -/
def mapLeavesItems (f : Value → Value) : List Value → List Value
  | [] => []
  | item :: items => mapLeaves f item :: mapLeavesItems f items

/-- The entries of a map with the leaves of their values replaced. -/
def mapLeavesEntries (f : Value → Value) : List (String × Value) → List (String × Value)
  | [] => []
  | (key, value) :: entries => (key, mapLeaves f value) :: mapLeavesEntries f entries

end

theorem mapLeavesItems_eq (items : List Value) :
    mapLeavesItems f items = items.map (mapLeaves f) := by
  induction items with
  | nil => rfl
  | cons item items ih => rw [mapLeavesItems, ih, List.map_cons]

theorem mapLeavesEntries_eq (entries : List (String × Value)) :
    mapLeavesEntries f entries = entries.map fun entry => (entry.1, mapLeaves f entry.2) := by
  induction entries with
  | nil => rfl
  | cons entry entries ih => rw [mapLeavesEntries, ih, List.map_cons]

@[simp] theorem mapLeaves_list (items : List Value) :
    mapLeaves f (.list items) = .list (items.map (mapLeaves f)) := by
  rw [mapLeaves, mapLeavesItems_eq]

@[simp] theorem mapLeaves_map (entries : List (String × Value)) :
    mapLeaves f (.map entries) =
      .map (entries.map fun entry => (entry.1, mapLeaves f entry.2)) := by
  rw [mapLeaves, mapLeavesEntries_eq]

-- ============================================================================
-- Lists and maps as documents
-- ============================================================================

theorem toJsonItems_eq (items : List Value) : toJsonItems items = items.map toJson := by
  induction items with
  | nil => rfl
  | cons item items ih => rw [toJsonItems, ih, List.map_cons]

theorem toJsonEntries_eq (entries : List (String × Value)) :
    toJsonEntries entries = entries.map fun entry => (entry.1, toJson entry.2) := by
  induction entries with
  | nil => rfl
  | cons entry entries ih => rw [toJsonEntries, ih, List.map_cons]

theorem ofJsonItems_eq (items : List Json) : ofJsonItems items = items.map ofJson := by
  induction items with
  | nil => rfl
  | cons item items ih => rw [ofJsonItems, ih, List.map_cons]

theorem ofJsonMembers_eq (members : List (String × Json)) :
    ofJsonMembers members = members.map fun member => (member.1, ofJson member.2) := by
  induction members with
  | nil => rfl
  | cons member members ih => rw [ofJsonMembers, ih, List.map_cons]

@[simp] theorem toJson_list (items : List Value) :
    toJson (.list items) = .array (items.map toJson) := by
  rw [toJson, toJsonItems_eq]

@[simp] theorem toJson_map (entries : List (String × Value)) :
    toJson (.map entries) = .object (entries.map fun entry => (entry.1, toJson entry.2)) := by
  rw [toJson, toJsonEntries_eq]

@[simp] theorem ofJson_array (items : List Json) :
    ofJson (.array items) = .list (items.map ofJson) := by
  rw [ofJson, ofJsonItems_eq]

@[simp] theorem ofJson_object (members : List (String × Json)) :
    ofJson (.object members) = .map (members.map fun member => (member.1, ofJson member.2)) := by
  rw [ofJson, ofJsonMembers_eq]

-- ============================================================================
-- From a value to a document and back
-- ============================================================================

/-- Whether JSON has a leaf: it has neither functions nor objects, and of the floats only
    the finite ones. -/
def isWritable : Value → Bool
  | .function _ | .host _ => false
  | .float value => Binary64.isFinite value
  | _ => true

/-- What is left of a leaf in a document. -/
def written (leaf : Value) : Value :=
  if leaf.isWritable then leaf else .nil

/-- The integers of the language are those that a document gives back as integers. -/
theorem ofInteger_toInt (value : Int64) : ofInteger value.toInt = .int value := by
  rw [ofInteger, if_pos ⟨Int64.le_toInt value, Int64.toInt_lt value⟩, Int64.ofInt_toInt]

/-- A value comes back from its document with its leaves as JSON has them, at any depth
    and with nothing else changed. -/
theorem ofJson_toJson (value : Value) : ofJson (toJson value) = value.mapLeaves written := by
  induction value with
  | step value ih =>
    cases value with
    | int value => exact ofInteger_toInt value
    | float value =>
      cases finite : Binary64.isFinite value with
      | true => simp [toJson, ofJson, mapLeaves, written, isWritable, finite]
      | false => simp [toJson, ofJson, mapLeaves, written, isWritable, finite]
    | list items =>
      rw [toJson_list, ofJson_array, mapLeaves_list, List.map_map]
      congr 1
      exact List.map_congr_left fun item mem => ih item (.item mem)
    | map entries =>
      rw [toJson_map, ofJson_object, mapLeaves_map, List.map_map]
      congr 1
      exact List.map_congr_left fun entry mem => congrArg (entry.1, ·) (ih entry.2 (.entry mem))
    | _ => rfl

-- ============================================================================
-- From a document to a value and back
-- ============================================================================

/-- What a leaf of a document is once it has been a value. -/
def loaded : Json → Json
  | .integer value => if value < 2 ^ 63 then .integer value else .float (Binary64.ofInt value)
  | leaf => leaf

theorem toJson_ofInteger {value : Int} (low : -(2 ^ 63) ≤ value) (high : value < 2 ^ 64) :
    toJson (ofInteger value) = loaded (.integer value) := by
  simp only [ofInteger, loaded]
  by_cases small : value < 2 ^ 63
  · rw [if_pos ⟨low, small⟩, if_pos small, toJson, Int64.toInt_ofInt_of_le low small]
  · have finite := Binary64.isFinite_ofInt (show 0 ≤ value by omega) high
    rw [if_neg (fun h => small h.2), if_neg small, toJson, if_pos finite]

theorem loaded_eq_self_iff {leaf : Json} :
    loaded leaf = leaf ↔ ∀ value, leaf = .integer value → value < 2 ^ 63 := by
  cases leaf with
  | integer value =>
    simp only [loaded, Json.integer.injEq, forall_eq']
    split
    · exact iff_of_true rfl ‹_›
    · exact iff_of_false nofun ‹_›
  | _ => exact iff_of_true rfl nofun

theorem toJson_ofJson_of_held {document : Json} (held : document.Held) :
    toJson (ofJson document) = document.mapLeaves loaded := by
  induction document with
  | step document ih =>
    cases document with
    | integer value =>
      obtain ⟨low, high⟩ := Json.held_integer.1 held
      exact toJson_ofInteger low high
    | float value =>
      rw [ofJson, toJson, if_pos (Json.held_float.1 held)]
      rfl
    | array items =>
      rw [ofJson_array, toJson_list, Json.mapLeaves_array, List.map_map]
      congr 1
      exact List.map_congr_left fun item mem =>
        ih item (.item mem) (Json.held_array.1 held item mem)
    | object members =>
      rw [ofJson_object, toJson_map, Json.mapLeaves_object, List.map_map]
      congr 1
      refine List.map_congr_left fun member mem => congrArg (member.1, ·) ?_
      exact ih member.2 (.member mem) (Json.held_object.1 held member mem)
    | _ => rfl

/-- A document that is taken as a value and written again keeps everything except the
    integers of 2 ^ 63 and more, which become floats; it is the same document exactly when
    it has none of them. -/
theorem toJson_ofJson {document : Json} (held : document.Held) :
    toJson (ofJson document) = document.mapLeaves loaded ∧
      (toJson (ofJson document) = document ↔
        ∀ value, .integer value ∈ document.leaves → value < 2 ^ 63) := by
  have trip := toJson_ofJson_of_held held
  refine ⟨trip, ?_⟩
  rw [trip, Json.mapLeaves_eq_self_iff]
  constructor
  · exact fun h value mem => loaded_eq_self_iff.1 (h _ mem) value rfl
  · exact fun h leaf mem => loaded_eq_self_iff.2 fun value same => h value (same ▸ mem)

/-- A document with the largest integer that is kept and, inside an object, one that is not. -/
def identifiers : Json :=
  .array [.integer 9223372036854775807, .object [("id", .integer 18446744073709551615)]]

theorem toJson_ofJson_identifiers :
    identifiers.Held ∧
      toJson (ofJson identifiers) =
        .array [.integer 9223372036854775807,
          .object [("id", .float (Binary64.ofInt 18446744073709551615))]] ∧
      toJson (ofJson identifiers) ≠ identifiers := by
  have held : identifiers.Held := by
    simp [identifiers, Json.held_array, Json.held_object, Json.held_integer]
  obtain ⟨trip, same⟩ := toJson_ofJson held
  refine ⟨held, trip, fun h => ?_⟩
  have small := same.1 h 18446744073709551615 (List.mem_cons_of_mem _ List.mem_cons_self)
  exact absurd small (by decide)

/-- The largest integer that a document holds exactly does not come back. -/
theorem toJson_ofJson_largest :
    toJson (ofJson (.integer 18446744073709551615)) ≠ .integer 18446744073709551615 := by
  rw [ofJson, toJson_ofInteger (by decide) (by decide), ne_eq, loaded_eq_self_iff]
  exact fun h => absurd (h _ rfl) (by decide)

end ExprMachine.Value
