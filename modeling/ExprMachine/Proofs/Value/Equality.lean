/-
  ExprMachine.Proofs.Value.Equality

  The equality of the language is symmetric and transitive, a value equals itself just
  when no float inside it is not a number, and values that are strictly equal are equal.
  Numbers are equal by their exact values, so integers and floats mix freely; maps are
  equal when each has the keys of the other, which one direction shows by counting.
-/
import Mathlib.Data.List.Forall2
import Mathlib.Data.List.Perm.Subperm
import ExprMachine.Proofs.Binary64.Comparison
import ExprMachine.Proofs.Value.Induction
import ExprMachine.Value.Equality

namespace ExprMachine

-- ============================================================================
-- Entries of maps
-- ============================================================================

namespace Entries

theorem lookup_of_mem {entries : List (String × Value)} (distinct : (entries.map Prod.fst).Nodup)
    {entry : String × Value} (h : entry ∈ entries) :
    entries.lookup entry.1 = some entry.2 := by
  induction entries with
  | nil => cases h
  | cons first others ih =>
    rw [List.map_cons, List.nodup_cons] at distinct
    rw [List.lookup_cons]
    rcases List.mem_cons.1 h with rfl | h
    · rw [beq_self_eq_true]
    · have other : (entry.1 == first.1) = false := by
        rw [beq_eq_false_iff_ne]
        rintro same
        exact distinct.1 (same ▸ List.mem_map_of_mem h)
      rw [other]
      exact ih distinct.2 h

theorem mem_of_lookup {entries : List (String × Value)} {key : String} {value : Value}
    (h : entries.lookup key = some value) : (key, value) ∈ entries := by
  obtain ⟨before, after, rfl, -⟩ := List.lookup_eq_some_iff.1 h
  exact List.mem_append_right _ List.mem_cons_self

/-- `Agree R entries others`: as many entries stand on both sides, and the value of each
    one on the left is related to the value that its key has on the right. -/
structure Agree (R : Value → Value → Prop) (entries others : List (String × Value)) : Prop where
  sizes : entries.length = others.length
  each : ∀ entry ∈ entries, ∃ value, others.lookup entry.1 = some value ∧ R entry.2 value

variable {R S T : Value → Value → Prop} {entries others more : List (String × Value)}

/-- Maps that agree have the same keys: those on the left are among those on the right,
    and there are as many of them. -/
theorem Agree.keys_perm (h : Agree R entries others)
    (distinct : (entries.map Prod.fst).Nodup) :
    (entries.map Prod.fst).Perm (others.map Prod.fst) := by
  have subset : entries.map Prod.fst ⊆ others.map Prod.fst := by
    intro key hkey
    obtain ⟨entry, hentry, rfl⟩ := List.mem_map.1 hkey
    obtain ⟨value, found, -⟩ := h.each entry hentry
    exact List.mem_map.2 ⟨_, mem_of_lookup found, rfl⟩
  have lengths : (others.map Prod.fst).length ≤ (entries.map Prod.fst).length := by
    rw [List.length_map, List.length_map]
    exact Nat.le_of_eq h.sizes.symm
  exact (distinct.subperm subset).perm_of_length_le lengths

theorem Agree.symm (h : Agree R entries others) (distinct : (entries.map Prod.fst).Nodup)
    (flip : ∀ entry ∈ entries, ∀ value, R entry.2 value → S value entry.2) :
    Agree S others entries := by
  have perm := h.keys_perm distinct
  refine ⟨h.sizes.symm, fun other hother => ?_⟩
  have hkey : other.1 ∈ entries.map Prod.fst :=
    perm.mem_iff.2 (List.mem_map_of_mem hother)
  obtain ⟨entry, hentry, same⟩ := List.mem_map.1 hkey
  obtain ⟨value, found, related⟩ := h.each entry hentry
  rw [same, lookup_of_mem (perm.nodup_iff.1 distinct) hother] at found
  refine ⟨entry.2, same ▸ lookup_of_mem distinct hentry, ?_⟩
  exact flip entry hentry _ (Option.some.inj found ▸ related)

theorem Agree.trans (h : Agree R entries others) (h' : Agree S others more)
    (compose : ∀ entry ∈ entries, ∀ value other, R entry.2 value → S value other →
      T entry.2 other) : Agree T entries more := by
  refine ⟨h.sizes.trans h'.sizes, fun entry hentry => ?_⟩
  obtain ⟨value, found, related⟩ := h.each entry hentry
  obtain ⟨other, found', related'⟩ := h'.each _ (mem_of_lookup found)
  exact ⟨other, found', compose entry hentry value other related related'⟩

theorem Agree.imp (h : Agree R entries others)
    (weaker : ∀ entry ∈ entries, ∀ value, R entry.2 value → S entry.2 value) :
    Agree S entries others := by
  refine ⟨h.sizes, fun entry hentry => ?_⟩
  obtain ⟨value, found, related⟩ := h.each entry hentry
  exact ⟨value, found, weaker entry hentry value related⟩

theorem Agree.refl (distinct : (entries.map Prod.fst).Nodup)
    (each : ∀ entry ∈ entries, R entry.2 entry.2) : Agree R entries entries :=
  ⟨rfl, fun entry hentry => ⟨entry.2, lookup_of_mem distinct hentry, each entry hentry⟩⟩

end Entries

-- ============================================================================
-- Items of lists
-- ============================================================================

namespace Items

variable {R S T : Value → Value → Prop} {items others more : List Value}

theorem forall₂_imp (h : List.Forall₂ R items others)
    (weaker : ∀ item ∈ items, ∀ other, R item other → S item other) :
    List.Forall₂ S items others := by
  induction h with
  | nil => exact .nil
  | cons first _ ih =>
    exact .cons (weaker _ List.mem_cons_self _ first)
      (ih fun item hitem => weaker item (List.mem_cons_of_mem _ hitem))

theorem forall₂_symm (h : List.Forall₂ R items others)
    (flip : ∀ item ∈ items, ∀ other, R item other → S other item) :
    List.Forall₂ S others items :=
  (forall₂_imp h flip).flip

theorem forall₂_trans (h : List.Forall₂ R items others) (h' : List.Forall₂ S others more)
    (compose : ∀ item ∈ items, ∀ other last, R item other → S other last → T item last) :
    List.Forall₂ T items more := by
  induction h generalizing more with
  | nil =>
    cases h'
    exact .nil
  | cons first _ ih =>
    cases h' with
    | cons first' rest' =>
      exact .cons (compose _ List.mem_cons_self _ _ first first')
        (ih rest' fun item hitem => compose item (List.mem_cons_of_mem _ hitem))

end Items

namespace Value

-- ============================================================================
-- Numbers
-- ============================================================================

/-- The exact value of a number, in the units of floats. What is not a number has none. -/
def units? : Value → Option Int
  | .int value => some (value.toInt * Binary64.unitsPerOne)
  | .float value => Binary64.units? value
  | _ => none

theorem toInt_mul_unitsPerOne_inj {a b : Int64}
    (h : a.toInt * Binary64.unitsPerOne = b.toInt * Binary64.unitsPerOne) : a = b :=
  Int64.toInt_inj.1
    (Int.eq_of_mul_eq_mul_right (Int.natCast_ne_zero.2 (Nat.ne_of_gt Binary64.unitsPerOne_pos)) h)

-- ============================================================================
-- What equal values are
-- ============================================================================

theorem strictEqItems_iff {items others : List Value} :
    strictEqItems items others = true ↔
      List.Forall₂ (fun a b => strictEq a b = true) items others := by
  induction items generalizing others with
  | nil => cases others <;> simp [strictEqItems]
  | cons item items ih => cases others <;> simp [strictEqItems, ih]

theorem looseEqItems_iff {items others : List Value} :
    looseEqItems items others = true ↔
      List.Forall₂ (fun a b => looseEq a b = true) items others := by
  induction items generalizing others with
  | nil => cases others <;> simp [looseEqItems]
  | cons item items ih => cases others <;> simp [looseEqItems, ih]

theorem strictEqEntries_iff {entries others : List (String × Value)} :
    strictEqEntries entries others = true ↔ ∀ entry ∈ entries,
      ∃ value, others.lookup entry.1 = some value ∧ strictEq entry.2 value = true := by
  induction entries with
  | nil => simp [strictEqEntries]
  | cons entry entries ih =>
    rw [List.forall_mem_cons, ← ih, strictEqEntries, Bool.and_eq_true]
    cases others.lookup entry.1 <;> simp

theorem looseEqEntries_iff {entries others : List (String × Value)} :
    looseEqEntries entries others = true ↔ ∀ entry ∈ entries,
      ∃ value, others.lookup entry.1 = some value ∧ looseEq entry.2 value = true := by
  induction entries with
  | nil => simp [looseEqEntries]
  | cons entry entries ih =>
    rw [List.forall_mem_cons, ← ih, looseEqEntries, Bool.and_eq_true]
    cases others.lookup entry.1 <;> simp

/-- What values have in common that are equal in the language. -/
inductive Same : Value → Value → Prop where
  | number {a b amount} (left : units? a = some amount) (right : units? b = some amount) :
      Same a b
  | bool {value} : Same (.bool value) (.bool value)
  | nil : Same .nil .nil
  | text {value} : Same (.text value) (.text value)
  | list {items others}
      (each : List.Forall₂ (fun a b => looseEq a b = true) items others) :
      Same (.list items) (.list others)
  | map {entries others}
      (agree : Entries.Agree (fun a b => looseEq a b = true) entries others) :
      Same (.map entries) (.map others)
  | function {function} : Same (.function function) (.function function)
  | host {object} : Same (.host object) (.host object)

theorem looseEq_int {a b : Int64} : looseEq (.int a) (.int b) = true ↔
    units? (.int a) = units? (.int b) := by
  rw [looseEq, strictEq, beq_iff_eq, units?, units?, Option.some.injEq]
  · exact ⟨fun same => by rw [same], toInt_mul_unitsPerOne_inj⟩
  all_goals simp

theorem cases_of_units? {value : Value} {amount : Int} (h : units? value = some amount) :
    (∃ n, value = .int n ∧ n.toInt * Binary64.unitsPerOne = amount) ∨
      ∃ x, value = .float x ∧ Binary64.units? x = some amount := by
  cases value with
  | int n => exact .inl ⟨n, rfl, Option.some.inj h⟩
  | float x => exact .inr ⟨x, rfl, h⟩
  | _ => cases h

theorem looseEq_of_units? {a b : Value} {amount : Int} (left : units? a = some amount)
    (right : units? b = some amount) : looseEq a b = true := by
  obtain ⟨n, rfl, same⟩ | ⟨x, rfl, value⟩ := cases_of_units? left
  · obtain ⟨m, rfl, -⟩ | ⟨y, rfl, other⟩ := cases_of_units? right
    · exact looseEq_int.2 (left.trans right.symm)
    · rw [looseEq, Binary64.compareInt?_eq_some_eq_iff.2 (same ▸ other)]
      rfl
  · obtain ⟨m, rfl, same⟩ | ⟨y, rfl, other⟩ := cases_of_units? right
    · rw [looseEq, Binary64.compareInt?_eq_some_eq_iff.2 (same ▸ value)]
      rfl
    · rw [looseEq, strictEq, Binary64.equal_iff]
      · exact ⟨amount, value, other⟩
      all_goals simp

theorem looseEq_iff {a b : Value} : looseEq a b = true ↔ Same a b := by
  constructor
  · intro h
    cases a <;> cases b <;> try (simp [looseEq, strictEq] at h)
    case nil.nil => exact .nil
    case bool.bool => exact h ▸ .bool
    case int.int => exact h ▸ .number rfl rfl
    case int.float => exact .number rfl (Binary64.compareInt?_eq_some_eq_iff.1 h)
    case float.int => exact .number (Binary64.compareInt?_eq_some_eq_iff.1 h) rfl
    case float.float =>
      obtain ⟨amount, left, right⟩ := Binary64.equal_iff.1 h
      exact .number left right
    case text.text => exact h ▸ .text
    case list.list => exact .list (looseEqItems_iff.1 h)
    case map.map => exact .map ⟨h.1, looseEqEntries_iff.1 h.2⟩
    case function.function => exact h ▸ .function
    case host.host => exact h ▸ .host
  · intro h
    cases h with
    | number left right => exact looseEq_of_units? left right
    | bool => simp [looseEq, strictEq]
    | nil => simp [looseEq, strictEq]
    | text => simp [looseEq, strictEq]
    | list each => simpa [looseEq] using looseEqItems_iff.2 each
    | map agree => simpa [looseEq] using ⟨agree.sizes, looseEqEntries_iff.2 agree.each⟩
    | function => simp [looseEq, strictEq]
    | host => simp [looseEq, strictEq]

-- ============================================================================
-- The laws of equality
-- ============================================================================

theorem looseEq_symm {a b : Value} (distinct : KeysDistinct a) (h : looseEq a b = true) :
    looseEq b a = true := by
  induction a generalizing b with
  | step a ih =>
    rw [looseEq_iff] at h ⊢
    cases h with
    | number left right => exact .number right left
    | bool => exact .bool
    | nil => exact .nil
    | text => exact .text
    | list each =>
      refine .list (Items.forall₂_symm each fun item mem other same => ?_)
      exact ih item (.item mem) (distinct.part (.item mem)) same
    | map agree =>
      refine .map (agree.symm distinct.keys fun entry mem other same => ?_)
      exact ih entry.2 (.entry mem) (distinct.part (.entry mem)) same
    | function => exact .function
    | host => exact .host

theorem looseEq_comm {a b : Value} (ha : KeysDistinct a) (hb : KeysDistinct b) :
    looseEq a b = looseEq b a :=
  Bool.eq_iff_iff.2 ⟨looseEq_symm ha, looseEq_symm hb⟩

theorem looseEq_trans {a b c : Value} (first : looseEq a b = true) (second : looseEq b c = true) :
    looseEq a c = true := by
  induction a generalizing b c with
  | step a ih =>
    rw [looseEq_iff] at first second ⊢
    cases first with
    | number left middle =>
      cases second with
      | number middle' right =>
        rw [Option.some.inj (middle'.symm.trans middle)] at right
        exact .number left right
      | _ => cases middle
    | list each =>
      cases second with
      | number middle => cases middle
      | list each' =>
        exact .list (Items.forall₂_trans each each'
          fun item mem _ _ same same' => ih item (.item mem) same same')
    | map agree =>
      cases second with
      | number middle => cases middle
      | map agree' =>
        exact .map (agree.trans agree'
          fun entry mem _ _ same same' => ih entry.2 (.entry mem) same same')
    | _ => exact second

/-- Whether a float that is not a number stands somewhere in a value. -/
def HoldsNaN (value : Value) : Prop :=
  ∃ x, Occurs (.float x) value ∧ Binary64.read x = .notANumber

theorem HoldsNaN.part {part value : Value} (part_of : Part part value) (h : HoldsNaN part) :
    HoldsNaN value := by
  obtain ⟨x, within, notANumber⟩ := h
  exact ⟨x, .part part_of within, notANumber⟩

theorem looseEq_self {a : Value} (distinct : KeysDistinct a) (numbers : ¬ HoldsNaN a) :
    looseEq a a = true := by
  induction a with
  | step a ih =>
    have parts : ∀ part, Part part a → looseEq part part = true := fun part part_of =>
      ih part part_of (distinct.part part_of) fun h => numbers (h.part part_of)
    rw [looseEq_iff]
    cases a with
    | nil => exact .nil
    | bool => exact .bool
    | int => exact .number rfl rfl
    | float x =>
      cases value : Binary64.units? x with
      | none => exact absurd ⟨x, .self, Binary64.units?_eq_none_iff.1 value⟩ numbers
      | some amount => exact .number value value
    | text => exact .text
    | list items => exact .list (List.forall₂_same.2 fun item mem => parts item (.item mem))
    | map entries =>
      exact .map (.refl distinct.keys fun entry mem => parts entry.2 (.entry mem))
    | function => exact .function
    | host => exact .host

/-- The parts of a value that equals itself equal themselves. -/
theorem looseEq_self_part {part value : Value} (distinct : KeysDistinct value)
    (part_of : Part part value) (h : looseEq value value = true) : looseEq part part = true := by
  rw [looseEq_iff] at h
  cases part_of with
  | item mem =>
    cases h with
    | number left => cases left
    | list each => exact List.forall₂_same.1 each _ mem
  | entry mem =>
    cases h with
    | number left => cases left
    | map agree =>
      obtain ⟨value, found, same⟩ := agree.each _ mem
      rw [Entries.lookup_of_mem distinct.keys mem] at found
      exact Option.some.inj found ▸ same

theorem looseEq_self_occurs {inner value : Value} (within : Occurs inner value)
    (distinct : KeysDistinct value) (h : looseEq value value = true) :
    looseEq inner inner = true := by
  induction within with
  | self => exact h
  | part part_of _ ih =>
    exact ih (distinct.part part_of) (looseEq_self_part distinct part_of h)

/-- A value equals itself just when no float inside it is not a number. -/
theorem looseEq_self_iff {a : Value} (distinct : KeysDistinct a) :
    looseEq a a = true ↔ ¬ HoldsNaN a := by
  constructor
  · rintro h ⟨x, within, notANumber⟩
    have itself := looseEq_iff.1 (looseEq_self_occurs within distinct h)
    cases itself with
    | number left => exact nomatch (Binary64.units?_eq_none_iff.2 notANumber).symm.trans left
  · exact looseEq_self distinct

theorem looseEq_of_strictEq {a b : Value} (h : strictEq a b = true) : looseEq a b = true := by
  induction a generalizing b with
  | step a ih =>
    unfold looseEq
    split
    · simp [strictEq] at h
    · simp [strictEq] at h
    · rw [strictEq, strictEqItems_iff] at h
      exact looseEqItems_iff.2
        (Items.forall₂_imp h fun item mem _ same => ih item (.item mem) same)
    · rename_i entries others
      rw [strictEq, Bool.and_eq_true, beq_iff_eq, strictEqEntries_iff] at h
      have strict : Entries.Agree (fun a b => strictEq a b = true) entries others := ⟨h.1, h.2⟩
      have loose : Entries.Agree (fun a b => looseEq a b = true) entries others :=
        strict.imp fun entry mem _ same => ih entry.2 (.entry mem) same
      rw [Bool.and_eq_true, beq_iff_eq, looseEqEntries_iff]
      exact ⟨loose.sizes, loose.each⟩
    · exact h

/-- The equality of the language is an equivalence of the values without a float that is
    not a number, and coarser than strict equality. -/
theorem looseEq_equivalence {a b c : Value} (ha : KeysDistinct a) (hb : KeysDistinct b) :
    looseEq a b = looseEq b a ∧
      (looseEq a b = true → looseEq b c = true → looseEq a c = true) ∧
      (looseEq a a = true ↔ ¬ HoldsNaN a) ∧
      (strictEq a b = true → looseEq a b = true) :=
  ⟨looseEq_comm ha hb, looseEq_trans, looseEq_self_iff ha, looseEq_of_strictEq⟩

/-- Maps that were filled in different orders, with integers and with floats. -/
theorem looseEq_equivalence_map :
    looseEq (.map [("x", .int 1), ("y", .float 2.0)])
        (.map [("y", .int 2), ("x", .float 1.0)]) = true ∧
      looseEq (.map [("y", .int 2), ("x", .float 1.0)])
        (.map [("x", .int 1), ("y", .float 2.0)]) = true ∧
      looseEq (.map [("x", .int 1), ("y", .float 2.0)])
        (.map [("x", .float 1.0), ("y", .int 2)]) = true ∧
      ¬ HoldsNaN (.map [("x", .int 1), ("y", .float 2.0)]) := by
  have number (n : Int64) : KeysDistinct (.int n) := keysDistinct_of_no_parts nofun
  have float (x : Float) : KeysDistinct (.float x) := keysDistinct_of_no_parts nofun
  have ha : KeysDistinct (.map [("x", .int 1), ("y", .float 2.0)]) :=
    keysDistinct_map.2 ⟨by decide, by simp [number, float]⟩
  have hb : KeysDistinct (.map [("y", .int 2), ("x", .float 1.0)]) :=
    keysDistinct_map.2 ⟨by decide, by simp [number, float]⟩
  have first : looseEq (.map [("x", .int 1), ("y", .float 2.0)])
      (.map [("y", .int 2), ("x", .float 1.0)]) = true := by decide +kernel
  have second : looseEq (.map [("y", .int 2), ("x", .float 1.0)])
      (.map [("x", .float 1.0), ("y", .int 2)]) = true := by decide +kernel
  have itself : looseEq (.map [("x", .int 1), ("y", .float 2.0)])
      (.map [("x", .int 1), ("y", .float 2.0)]) = true := by decide +kernel
  obtain ⟨comm, trans, self, -⟩ := looseEq_equivalence ha hb
  exact ⟨first, comm ▸ first, trans first second, self.1 itself⟩

end Value

end ExprMachine
