/-
  ExprMachine.Proofs.Value.Interchange

  Values that are equal in the language can stand for one another: they are equal to the
  same values, they count as true or not alike, they are members of the same containers
  and they have the same members. Nothing that an expression can ask by these tests tells
  an integer from a float of its value, or the orders of the keys of two maps.
-/
import ExprMachine.Proofs.Value.Equality
import ExprMachine.Value.Access
import ExprMachine.Value.Operand

namespace ExprMachine.Value

variable {host : Host} {a b : Value}

-- ============================================================================
-- Equality
-- ============================================================================

theorem looseEq_congr_left (distinct : KeysDistinct a) (same : looseEq a b = true) (c : Value) :
    looseEq a c = looseEq b c := by
  rw [Bool.eq_iff_iff]
  exact ⟨looseEq_trans (looseEq_symm distinct same), looseEq_trans same⟩

theorem looseEq_congr_right (distinct : KeysDistinct a) (same : looseEq a b = true) (c : Value) :
    looseEq c a = looseEq c b := by
  rw [Bool.eq_iff_iff]
  exact ⟨fun h => looseEq_trans h same, fun h => looseEq_trans h (looseEq_symm distinct same)⟩

-- ============================================================================
-- Truth
-- ============================================================================

/-- A number counts as true unless its exact value is zero. -/
theorem isTruthy_of_units? {value : Value} {amount : Int} (h : units? value = some amount) :
    value.isTruthy host = (amount != 0) := by
  obtain ⟨n, rfl, rfl⟩ | ⟨x, rfl, hx⟩ := cases_of_units? h
  · have positive := Binary64.unitsPerOne_pos
    rw [isTruthy, Bool.eq_iff_iff, bne_iff_ne, bne_iff_ne, ne_eq, ne_eq, Int.mul_eq_zero,
      ← Int64.toInt_inj]
    have zero : (0 : Int64).toInt = 0 := rfl
    omega
  · rw [isTruthy, Binary64.isZero, hx]
    rfl

theorem isTruthy_of_looseEq (same : looseEq a b = true) : a.isTruthy host = b.isTruthy host := by
  cases looseEq_iff.1 same with
  | number left right => rw [isTruthy_of_units? left, isTruthy_of_units? right]
  | list each => cases each <;> rfl
  | @map entries others agree =>
    have sizes := agree.sizes
    cases entries <;> cases others <;> first | rfl | cases sizes
  | _ => rfl

-- ============================================================================
-- Being a member
-- ============================================================================

/-- Where texts are looked for, only the text of a value counts. -/
theorem contains?_map (entries : List (String × Value)) (needle : Value) :
    contains? host (.map entries) needle =
      (Operand.text.read? needle).map fun key => (entries.lookup key).isSome := by
  cases needle <;> rfl

theorem contains?_text (content : String) (needle : Value) :
    contains? host (.text content) needle =
      (Operand.text.read? needle).map fun part => hasPart part.toList content.toList := by
  cases needle <;> rfl

theorem contains?_keyed {object : ObjectRef} {value? : String → Option Value} {missing : Value}
    {hasKey : String → Bool} (hshape : host.shape object = .keyed value? missing hasKey)
    (needle : Value) :
    contains? host (.host object) needle = (Operand.text.read? needle).map hasKey := by
  rw [contains?, hshape]
  cases needle <;> rfl

/-- Equal values are the same text, or neither is a text. -/
theorem readText?_of_looseEq (same : looseEq a b = true) :
    Operand.text.read? a = Operand.text.read? b := by
  cases looseEq_iff.1 same with
  | number left right =>
    obtain ⟨n, rfl, -⟩ | ⟨x, rfl, -⟩ := cases_of_units? left <;>
      obtain ⟨m, rfl, -⟩ | ⟨y, rfl, -⟩ := cases_of_units? right <;> rfl
  | _ => rfl

/-- Equal values are members of the same containers. -/
theorem contains?_congr_needle (distinct : KeysDistinct a) (same : looseEq a b = true)
    (container : Value) : contains? host container a = contains? host container b := by
  have equal (item : Value) : looseEq item a = looseEq item b :=
    looseEq_congr_right distinct same item
  cases container with
  | list items => simp only [contains?, equal]
  | map entries => rw [contains?_map, contains?_map, readText?_of_looseEq same]
  | text content => rw [contains?_text, contains?_text, readText?_of_looseEq same]
  | host object =>
    cases hshape : host.shape object with
    | keyed value? missing hasKey =>
      rw [contains?_keyed hshape, contains?_keyed hshape, readText?_of_looseEq same]
    | indexed length item? => simp only [contains?, hshape, equal]
    | record | plain => simp only [contains?, hshape]
  | _ => rfl

-- ============================================================================
-- Having members
-- ============================================================================

theorem isSome_lookup_iff {entries : List (String × Value)} {key : String} :
    (entries.lookup key).isSome = true ↔ key ∈ entries.map Prod.fst := by
  rw [List.lookup_isSome_iff, List.mem_map]
  constructor
  · rintro ⟨entry, mem, same⟩
    exact ⟨entry, mem, (beq_iff_eq.1 same).symm⟩
  · rintro ⟨entry, mem, rfl⟩
    exact ⟨entry, mem, beq_self_eq_true _⟩

/-- Maps that agree have the same keys to be found. -/
theorem isSome_lookup_of_agree {R : Value → Value → Prop} {entries others : List (String × Value)}
    (agree : Entries.Agree R entries others) (distinct : (entries.map Prod.fst).Nodup)
    (key : String) : (entries.lookup key).isSome = (others.lookup key).isSome := by
  rw [Bool.eq_iff_iff, isSome_lookup_iff, isSome_lookup_iff]
  exact (agree.keys_perm distinct).mem_iff

theorem any_eq_of_forall₂ {items others : List Value} {test : Value → Bool}
    (each : List.Forall₂ (fun item other => test item = test other) items others) :
    items.any test = others.any test := by
  induction each with
  | nil => rfl
  | cons first _ ih => rw [List.any_cons, List.any_cons, first, ih]

/-- Equal values have the same members. -/
theorem contains?_congr_container (distinct : KeysDistinct a) (same : looseEq a b = true)
    (needle : Value) : contains? host a needle = contains? host b needle := by
  cases looseEq_iff.1 same with
  | number left right =>
    obtain ⟨n, rfl, -⟩ | ⟨x, rfl, -⟩ := cases_of_units? left <;>
      obtain ⟨m, rfl, -⟩ | ⟨y, rfl, -⟩ := cases_of_units? right <;> rfl
  | list each =>
    have alike := Items.forall₂_imp each fun item mem other same =>
      looseEq_congr_left (distinct.part (.item mem)) same needle
    rw [contains?, contains?, any_eq_of_forall₂ alike]
  | map agree =>
    rw [contains?_map, contains?_map]
    simp only [isSome_lookup_of_agree agree distinct.keys]
  | _ => rfl

-- ============================================================================
-- Interchange
-- ============================================================================

/-- Equal values are interchangeable in every test: whether they count as true, whether they
    are members of a value, and whether a value is a member of them, be it a container for
    such members or not. -/
theorem looseEq_interchange (host : Host) (distinct : KeysDistinct a)
    (same : looseEq a b = true) :
    a.isTruthy host = b.isTruthy host ∧
      ∀ c, c.contains? host a = c.contains? host b ∧ a.contains? host c = b.contains? host c :=
  ⟨isTruthy_of_looseEq same, fun c =>
    ⟨contains?_congr_needle distinct same c, contains?_congr_container distinct same c⟩⟩

/-- Two maps that were filled in different orders, with an integer and with a float, in a list
    and as containers of keys. -/
theorem looseEq_interchange_map :
    let a : Value := .map [("x", .int 1), ("y", .nil)]
    let b : Value := .map [("y", .nil), ("x", .float 1.0)]
    KeysDistinct a ∧ looseEq a b = true ∧
      contains? .empty (.list [b]) b = some true ∧ contains? .empty (.list [b]) a = some true ∧
      contains? .empty a (.text "y") = some true ∧ contains? .empty b (.text "y") = some true ∧
      contains? .empty a (.int 1) = none ∧ contains? .empty b (.int 1) = none := by
  intro a b
  have distinct : KeysDistinct a := keysDistinct_map.2 ⟨by decide, by simp⟩
  have same : looseEq a b = true := by decide +kernel
  have among : contains? .empty (.list [b]) b = some true := by decide +kernel
  have key : contains? .empty a (.text "y") = some true := by decide +kernel
  obtain ⟨-, alike⟩ := looseEq_interchange .empty distinct same
  exact ⟨distinct, same, among, (alike _).1.trans among, key, (alike _).2.symm.trans key, rfl,
    (alike _).2.symm⟩

end ExprMachine.Value
