/-
  ExprMachine.Bytecode.Pool

  The constants of an expression while it is compiled. Every scalar has one slot,
  found by a table that the type keeps in step with the slots; every call has a slot
  of its own. Indexes have two bytes, which limits the number of slots.
-/
import ExprMachine.Bytecode.Constant
import Std.Data.HashMap.Lemmas

namespace ExprMachine

/-- How many constants two bytes can tell apart. -/
def maxConstants : Nat := 65536

/-- Constants in the order of their slots, and the slots of the scalars. -/
structure Pool where
  constants : Array Constant
  slots : Std.HashMap Scalar Nat
  slots_iff : ∀ (value : Scalar) (slot : Nat),
    slots[value]? = some slot ↔ constants[slot]? = some (.scalar value)

namespace Pool

/-- No constants. -/
def empty : Pool where
  constants := #[]
  slots := ∅
  slots_iff := by simp

/-- Adds a slot for a scalar that has none. -/
def pushScalar (pool : Pool) (value : Scalar) (fresh : pool.slots[value]? = none) : Pool :=
  let size := pool.constants.size
  ⟨pool.constants.push (.scalar value), pool.slots.insert value size, by
    intro other slot
    have hother := pool.slots_iff other slot
    have hfresh := pool.slots_iff value slot
    rw [Std.HashMap.getElem?_insert, Array.getElem?_push]
    by_cases h : value = other
    · subst h
      simp only [beq_self_eq_true, if_true, Option.some.injEq]
      rw [fresh] at hfresh
      split <;> grind
    · simp only [beq_iff_eq, h, if_false]
      rw [hother]
      split <;> grind⟩

/-- Adds a slot for a call. -/
def pushCall (pool : Pool) (name : String) (argumentCount : Nat) : Pool where
  constants := pool.constants.push (.call name argumentCount)
  slots := pool.slots
  slots_iff := by
    intro value slot
    have := pool.slots_iff value slot
    rw [Array.getElem?_push, this]
    split <;> grind

/-- The slot of a scalar, which is added at the end if the scalar has none; there is no
    slot when the pool is full. -/
def scalarSlot? (pool : Pool) (value : Scalar) : Option (Nat × Pool) :=
  match h : pool.slots[value]? with
  | some slot => some (slot, pool)
  | none =>
    if pool.constants.size < maxConstants then
      some (pool.constants.size, pool.pushScalar value h)
    else none

/-- A new slot for a call, unless the pool is full. -/
def callSlot? (pool : Pool) (name : String) (argumentCount : Nat) : Option (Nat × Pool) :=
  if pool.constants.size < maxConstants then
    some (pool.constants.size, pool.pushCall name argumentCount)
  else none

end Pool

end ExprMachine
