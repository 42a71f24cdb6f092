/-
  ExprMachine.Proofs.Json.Leaves

  Induction over JSON documents, and their leaves: everything in a document that is
  neither an array nor an object. A change of leaves keeps arrays, keys and their order.
  The numbers among the leaves are such as a document can hold: integers of 64 bits, with
  a sign if they are negative, and finite floats.
-/
import ExprMachine.Binary64.Exact
import ExprMachine.Json.Basic

namespace ExprMachine.Json

/-- `Part part document`: the one document is an item of the other or the value of one of
    its members. -/
inductive Part : Json → Json → Prop where
  | item {item items} (mem : item ∈ items) : Part item (.array items)
  | member {member members} (mem : member ∈ members) : Part member.2 (.object members)

/-- What holds of every document whose parts have it holds of all documents. -/
@[elab_as_elim, induction_eliminator]
theorem inductionOn {motive : Json → Prop}
    (step : ∀ document, (∀ part, Part part document → motive part) → motive document)
    (document : Json) : motive document := by
  refine @Json.rec motive (fun items => ∀ item ∈ items, motive item)
    (fun members => ∀ member ∈ members, motive member.2) (fun member => motive member.2)
    ?null ?bool ?integer ?float ?string ?array ?object ?noItems ?items ?noMembers
    ?members ?pair document
  case array =>
    intro items each
    refine step _ fun part h => ?_
    cases h with
    | item mem => exact each _ mem
  case object =>
    intro members each
    refine step _ fun part h => ?_
    cases h with
    | member mem => exact each _ mem
  case noItems => exact fun _ h => nomatch h
  case noMembers => exact fun _ h => nomatch h
  case items =>
    intro first others hfirst hothers
    exact List.forall_mem_cons.2 ⟨hfirst, hothers⟩
  case members =>
    intro first others hfirst hothers
    exact List.forall_mem_cons.2 ⟨hfirst, hothers⟩
  case pair => exact fun _ _ h => h
  all_goals intros; exact step _ fun _ h => nomatch h

-- ============================================================================
-- Leaves
-- ============================================================================

mutual

/-- The leaves of a document, in its order. -/
def leaves : Json → List Json
  | .null => [.null]
  | .bool value => [.bool value]
  | .integer value => [.integer value]
  | .float value => [.float value]
  | .string value => [.string value]
  | .array items => leavesItems items
  | .object members => leavesMembers members

/-- The leaves of the items of an array. -/
def leavesItems : List Json → List Json
  | [] => []
  | item :: items => leaves item ++ leavesItems items

/-- The leaves of the members of an object. -/
def leavesMembers : List (String × Json) → List Json
  | [] => []
  | (_, value) :: members => leaves value ++ leavesMembers members

end

mutual

/-- The document with each of its leaves replaced. The order of items, the keys of objects
    and the order of the keys stay. -/
def mapLeaves (f : Json → Json) : Json → Json
  | .null => f .null
  | .bool value => f (.bool value)
  | .integer value => f (.integer value)
  | .float value => f (.float value)
  | .string value => f (.string value)
  | .array items => .array (mapLeavesItems f items)
  | .object members => .object (mapLeavesMembers f members)

/-- The items of an array with their leaves replaced. -/
def mapLeavesItems (f : Json → Json) : List Json → List Json
  | [] => []
  | item :: items => mapLeaves f item :: mapLeavesItems f items

/-- The members of an object with the leaves of their values replaced. -/
def mapLeavesMembers (f : Json → Json) : List (String × Json) → List (String × Json)
  | [] => []
  | (key, value) :: members => (key, mapLeaves f value) :: mapLeavesMembers f members

end

variable {f : Json → Json}

theorem leavesItems_eq (items : List Json) : leavesItems items = items.flatMap leaves := by
  induction items with
  | nil => rfl
  | cons item items ih => rw [leavesItems, ih, List.flatMap_cons]

theorem leavesMembers_eq (members : List (String × Json)) :
    leavesMembers members = members.flatMap fun member => leaves member.2 := by
  induction members with
  | nil => rfl
  | cons member members ih => rw [leavesMembers, ih, List.flatMap_cons]

theorem mapLeavesItems_eq (items : List Json) :
    mapLeavesItems f items = items.map (mapLeaves f) := by
  induction items with
  | nil => rfl
  | cons item items ih => rw [mapLeavesItems, ih, List.map_cons]

theorem mapLeavesMembers_eq (members : List (String × Json)) :
    mapLeavesMembers f members =
      members.map fun member => (member.1, mapLeaves f member.2) := by
  induction members with
  | nil => rfl
  | cons member members ih => rw [mapLeavesMembers, ih, List.map_cons]

@[simp] theorem leaves_array (items : List Json) :
    leaves (.array items) = items.flatMap leaves := by
  rw [leaves, leavesItems_eq]

@[simp] theorem leaves_object (members : List (String × Json)) :
    leaves (.object members) = members.flatMap fun member => leaves member.2 := by
  rw [leaves, leavesMembers_eq]

@[simp] theorem mapLeaves_array (items : List Json) :
    mapLeaves f (.array items) = .array (items.map (mapLeaves f)) := by
  rw [mapLeaves, mapLeavesItems_eq]

@[simp] theorem mapLeaves_object (members : List (String × Json)) :
    mapLeaves f (.object members) =
      .object (members.map fun member => (member.1, mapLeaves f member.2)) := by
  rw [mapLeaves, mapLeavesMembers_eq]

/-- A document stays as it is under a change of leaves exactly when all its leaves do. -/
theorem mapLeaves_eq_self_iff {document : Json} :
    document.mapLeaves f = document ↔ ∀ leaf ∈ document.leaves, f leaf = leaf := by
  induction document with
  | step document ih =>
    cases document with
    | array items =>
      rw [mapLeaves_array, leaves_array, Json.array.injEq, List.forall_mem_flatMap]
      conv => lhs; rhs; rw [← List.map_id items]
      rw [List.map_inj_left]
      exact forall₂_congr fun item mem => ih item (.item mem)
    | object members =>
      rw [mapLeaves_object, leaves_object, Json.object.injEq, List.forall_mem_flatMap]
      conv => lhs; rhs; rw [← List.map_id members]
      rw [List.map_inj_left]
      refine forall₂_congr fun member mem => ?_
      rw [← ih member.2 (.member mem)]
      exact Prod.ext_iff.trans (and_iff_right rfl)
    | _ => simp [mapLeaves, leaves]

-- ============================================================================
-- Numbers
-- ============================================================================

/-- Whether a document can hold a leaf. -/
def IsHeld : Json → Prop
  | .integer value => -(2 ^ 63) ≤ value ∧ value < 2 ^ 64
  | .float value => Binary64.isFinite value = true
  | _ => True

/-- Whether all numbers of a document are such as can be held. -/
def Held (document : Json) : Prop :=
  ∀ leaf ∈ document.leaves, IsHeld leaf

theorem held_integer {value : Int} :
    Held (.integer value) ↔ -(2 ^ 63) ≤ value ∧ value < 2 ^ 64 :=
  List.forall_mem_singleton

theorem held_float {value : Float} : Held (.float value) ↔ Binary64.isFinite value = true :=
  List.forall_mem_singleton (p := IsHeld)

theorem held_array {items : List Json} : Held (.array items) ↔ ∀ item ∈ items, Held item := by
  rw [Held, leaves_array, List.forall_mem_flatMap]
  rfl

theorem held_object {members : List (String × Json)} :
    Held (.object members) ↔ ∀ member ∈ members, Held member.2 := by
  rw [Held, leaves_object, List.forall_mem_flatMap]
  rfl

end ExprMachine.Json
