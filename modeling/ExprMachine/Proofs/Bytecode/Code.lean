/-
  ExprMachine.Proofs.Bytecode.Code

  What the compiled form of an expression is, said over the tree and without the
  pool's bookkeeping: the instructions of the parts in order, then the instruction of
  the node, whose index finds the constant that it needs. Emitting an expression
  appends such instructions (`emit_isCode`), and slots never change their constants.
-/
import ExprMachine.Proofs.Bytecode.Instruction
import ExprMachine.Proofs.Expr.Induction

namespace ExprMachine

-- ============================================================================
-- Literals without a constant
-- ============================================================================

theorem Expr.emit_bool (emission : Emission) (value : Bool) :
    Expr.emit emission (.bool value) =
      .ok (emission.bare (if value then .pushTrue else .pushFalse)) := by
  rw [Expr.emit]

theorem Expr.emit_nil (emission : Emission) :
    Expr.emit emission .nil = .ok (emission.bare .pushNil) := by
  rw [Expr.emit]

-- ============================================================================
-- Slots
-- ============================================================================

/-- Whether an index of two bytes finds a constant. -/
def HasSlot (constants : Array Constant) (index : Nat) (constant : Constant) : Prop :=
  index < maxConstants ∧ constants[index]? = some constant

/-- Whether every slot of some constants has the same constant among others. -/
def Extends (more constants : Array Constant) : Prop :=
  ∀ (index : Nat) (constant : Constant),
    constants[index]? = some constant → more[index]? = some constant

theorem Extends.refl (constants : Array Constant) : Extends constants constants :=
  fun _ _ h => h

theorem Extends.trans {first second third : Array Constant} (h₂ : Extends third second)
    (h₁ : Extends second first) : Extends third first :=
  fun index constant h => h₂ index constant (h₁ index constant h)

theorem Extends.push (constants : Array Constant) (constant : Constant) :
    Extends (constants.push constant) constants := by
  intro index found h
  obtain ⟨hlt, rfl⟩ := Array.getElem?_eq_some_iff.1 h
  exact Array.getElem?_push_lt hlt

theorem HasSlot.extends {more constants : Array Constant} (h : Extends more constants)
    {index : Nat} {constant : Constant} (hslot : HasSlot constants index constant) :
    HasSlot more index constant :=
  ⟨hslot.1, h index constant hslot.2⟩

namespace Pool

/-- Whether every slot has an index of two bytes. -/
def Bounded (pool : Pool) : Prop := pool.constants.size ≤ maxConstants

theorem bounded_empty : empty.Bounded := Nat.zero_le _

/-- The last slot of a pool that was not full. -/
theorem hasSlot_push {constants : Array Constant} (h : constants.size < maxConstants)
    (constant : Constant) : HasSlot (constants.push constant) constants.size constant :=
  ⟨h, by simp⟩

theorem scalarSlot?_spec {pool after : Pool} {value : Scalar} {slot : Nat}
    (hb : pool.Bounded) (h : pool.scalarSlot? value = some (slot, after)) :
    after.Bounded ∧ Extends after.constants pool.constants ∧
      HasSlot after.constants slot (.scalar value) := by
  unfold scalarSlot? at h
  split at h
  · rename_i found hfound
    cases h
    have hslot := (pool.slots_iff value slot).1 hfound
    have hlt : slot < pool.constants.size := (Array.getElem?_eq_some_iff.1 hslot).1
    exact ⟨hb, Extends.refl _, Nat.lt_of_lt_of_le hlt hb, hslot⟩
  · split at h
    · rename_i hsize
      cases h
      exact ⟨by simpa [Bounded, pushScalar] using Nat.succ_le_of_lt hsize, Extends.push _ _,
        hasSlot_push hsize _⟩
    · cases h

theorem callSlot?_spec {pool after : Pool} {name : String} {argumentCount slot : Nat}
    (h : pool.callSlot? name argumentCount = some (slot, after)) :
    after.Bounded ∧ Extends after.constants pool.constants ∧
      HasSlot after.constants slot (.call name argumentCount) := by
  unfold callSlot? at h
  split at h
  · rename_i hsize
    cases h
    exact ⟨by simpa [Bounded, pushCall] using Nat.succ_le_of_lt hsize, Extends.push _ _,
      hasSlot_push hsize _⟩
  · cases h

end Pool

-- ============================================================================
-- The code of an expression
-- ============================================================================

namespace Expr

variable (constants : Array Constant)

mutual

/-- Whether instructions are a compiled form of an expression over these constants. -/
def IsCode : Expr → List Instruction → Prop
  | .int value, code =>
    ∃ slot, HasSlot constants slot (.scalar (.int value)) ∧ code = [⟨.push, slot⟩]
  | .float bits, code =>
    ∃ slot, HasSlot constants slot (.scalar (.float bits)) ∧ code = [⟨.push, slot⟩]
  | .text value, code =>
    ∃ slot, HasSlot constants slot (.scalar (.text value)) ∧ code = [⟨.push, slot⟩]
  | .bool value, code => code = [.bare (if value then .pushTrue else .pushFalse)]
  | .nil, code => code = [.bare .pushNil]
  | .identifier name, code =>
    ∃ slot, HasSlot constants slot (.scalar (.text name)) ∧ code = [⟨.fetch, slot⟩]
  | .unary symbol operand, code =>
    ∃ inner ops, IsCode operand inner ∧ unaryInstructions? symbol = some ops ∧
      code = inner ++ ops.map .bare
  | .binary symbol left right, code =>
    ∃ first second op, IsCode left first ∧ IsCode right second ∧
      binaryOpcode? symbol = some op ∧ code = first ++ second ++ [.bare op]
  | .property receiver name, code =>
    ∃ inner slot, IsCode receiver inner ∧ HasSlot constants slot (.scalar (.text name)) ∧
      code = inner ++ [⟨.property, slot⟩]
  | .call name arguments, code =>
    ∃ inner slot, AreCode arguments inner ∧
      HasSlot constants slot (.call name arguments.length) ∧ code = inner ++ [⟨.call, slot⟩]
  | .methodCall receiver name arguments, code =>
    ∃ first second slot, IsCode receiver first ∧ AreCode arguments second ∧
      HasSlot constants slot (.call name arguments.length) ∧
      code = first ++ second ++ [⟨.method, slot⟩]
  | .list items, code =>
    ∃ inner slot, AreCode items inner ∧
      HasSlot constants slot (.scalar (.int (.ofNat items.length))) ∧
      code = inner ++ [⟨.list, slot⟩]

/-- Whether instructions are the compiled forms of some expressions, one after the
    other. -/
def AreCode : List Expr → List Instruction → Prop
  | [], code => code = []
  | expr :: exprs, code =>
    ∃ first others, IsCode expr first ∧ AreCode exprs others ∧ code = first ++ others

end

variable {constants}

theorem AreCode.extends {more : Array Constant} {exprs : List Expr}
    (hmem : ∀ expr ∈ exprs, ∀ code, IsCode constants expr code → IsCode more expr code)
    {code : List Instruction} (h : AreCode constants exprs code) : AreCode more exprs code := by
  induction exprs generalizing code with
  | nil => exact h
  | cons expr exprs ih =>
    obtain ⟨first, others, hfirst, hothers, rfl⟩ := h
    exact ⟨first, others, hmem expr (List.mem_cons_self ..) first hfirst,
      ih (fun other hother => hmem other (List.mem_cons_of_mem _ hother)) hothers, rfl⟩

/-- Code stays code when there are more constants. -/
theorem IsCode.extends {more : Array Constant} (hmore : Extends more constants) {expr : Expr}
    {code : List Instruction} (h : IsCode constants expr code) : IsCode more expr code := by
  induction expr generalizing code with
  | int _ | float _ | text _ | identifier _ =>
    obtain ⟨slot, hslot, rfl⟩ := h
    exact ⟨slot, hslot.extends hmore, rfl⟩
  | bool _ | nil => exact h
  | unary _ _ ih =>
    obtain ⟨inner, ops, hinner, hops, rfl⟩ := h
    exact ⟨inner, ops, ih hinner, hops, rfl⟩
  | binary _ _ _ ihleft ihright =>
    obtain ⟨first, second, op, hfirst, hsecond, hop, rfl⟩ := h
    exact ⟨first, second, op, ihleft hfirst, ihright hsecond, hop, rfl⟩
  | property _ _ ih =>
    obtain ⟨inner, slot, hinner, hslot, rfl⟩ := h
    exact ⟨inner, slot, ih hinner, hslot.extends hmore, rfl⟩
  | call _ _ ih | list _ ih =>
    obtain ⟨inner, slot, hinner, hslot, rfl⟩ := h
    exact ⟨inner, slot, hinner.extends (fun expr hexpr _ => ih expr hexpr),
      hslot.extends hmore, rfl⟩
  | methodCall _ _ _ ihreceiver iharguments =>
    obtain ⟨first, second, slot, hfirst, hsecond, hslot, rfl⟩ := h
    exact ⟨first, second, slot, ihreceiver hfirst,
      hsecond.extends (fun expr hexpr _ => iharguments expr hexpr), hslot.extends hmore, rfl⟩

end Expr

-- ============================================================================
-- Instructions of code
-- ============================================================================

namespace Expr

theorem mem_binaryOpcodes {symbol : String} {op : Opcode} (h : binaryOpcode? symbol = some op) :
    (symbol, op) ∈ binaryOpcodes := by
  obtain ⟨before, after, hentries, -⟩ := List.lookup_eq_some_iff.1 h
  rw [hentries]
  simp

/-- The instructions of operators before an operand take no constants. -/
theorem takesConstant_unaryInstructions {symbol : String} {ops : List Opcode}
    (h : unaryInstructions? symbol = some ops) : ∀ op ∈ ops, op.takesConstant = false := by
  unfold unaryInstructions? at h
  split at h
  · cases h; simp
  split at h
  · cases h; simp [Opcode.takesConstant]
  split at h
  · cases h; simp [Opcode.takesConstant]
  · cases h

/-- Nor do those of operators between two operands. -/
theorem takesConstant_binaryOpcode {symbol : String} {op : Opcode}
    (h : binaryOpcode? symbol = some op) : op.takesConstant = false := by
  have hall : ∀ entry ∈ binaryOpcodes, entry.2.takesConstant = false := by decide
  exact hall (symbol, op) (mem_binaryOpcodes h)

variable {constants : Array Constant}

theorem AreCode.forall_instruction {property : Instruction → Prop} {exprs : List Expr}
    (hmem : ∀ expr ∈ exprs, ∀ code, IsCode constants expr code →
      ∀ instruction ∈ code, property instruction)
    {code : List Instruction} (h : AreCode constants exprs code) :
    ∀ instruction ∈ code, property instruction := by
  induction exprs generalizing code with
  | nil =>
    cases h
    exact fun _ hmem => nomatch hmem
  | cons expr exprs ih =>
    obtain ⟨first, others, hfirst, hothers, rfl⟩ := h
    intro instruction hinstruction
    rcases List.mem_append.1 hinstruction with hin | hin
    · exact hmem expr (List.mem_cons_self ..) first hfirst instruction hin
    · exact ih (fun other hother => hmem other (List.mem_cons_of_mem _ hother)) hothers
        instruction hin

theorem encodable_slot {op : Opcode} (hop : op.takesConstant = true) {slot : Nat}
    {constant : Constant} (h : HasSlot constants slot constant) :
    (⟨op, slot⟩ : Instruction).Encodable :=
  ⟨h.1, fun hnone => by rw [hop] at hnone; cases hnone⟩

/-- The bytes of code say all about its instructions. -/
theorem IsCode.encodable {expr : Expr} {code : List Instruction} (h : IsCode constants expr code) :
    ∀ instruction ∈ code, instruction.Encodable := by
  induction expr generalizing code with
  | int _ | float _ | text _ | identifier _ =>
    obtain ⟨slot, hslot, rfl⟩ := h
    simpa using encodable_slot rfl hslot
  | bool _ | nil =>
    cases h
    simpa using Instruction.encodable_bare
  | unary _ _ ih =>
    obtain ⟨inner, ops, hinner, -, rfl⟩ := h
    simp only [List.mem_append, List.mem_map]
    rintro instruction (hin | ⟨op, -, rfl⟩)
    · exact ih hinner instruction hin
    · exact Instruction.encodable_bare
  | binary _ _ _ ihleft ihright =>
    obtain ⟨first, second, op, hfirst, hsecond, -, rfl⟩ := h
    simp only [List.mem_append, List.mem_singleton]
    rintro instruction ((hin | hin) | rfl)
    · exact ihleft hfirst instruction hin
    · exact ihright hsecond instruction hin
    · exact Instruction.encodable_bare
  | property _ _ ih =>
    obtain ⟨inner, slot, hinner, hslot, rfl⟩ := h
    simp only [List.mem_append, List.mem_singleton]
    rintro instruction (hin | rfl)
    · exact ih hinner instruction hin
    · exact encodable_slot rfl hslot
  | call _ _ ih | list _ ih =>
    obtain ⟨inner, slot, hinner, hslot, rfl⟩ := h
    simp only [List.mem_append, List.mem_singleton]
    rintro instruction (hin | rfl)
    · exact hinner.forall_instruction (fun expr hexpr _ => ih expr hexpr) instruction hin
    · exact encodable_slot rfl hslot
  | methodCall _ _ _ ihreceiver iharguments =>
    obtain ⟨first, second, slot, hfirst, hsecond, hslot, rfl⟩ := h
    simp only [List.mem_append, List.mem_singleton]
    rintro instruction ((hin | hin) | rfl)
    · exact ihreceiver hfirst instruction hin
    · exact hsecond.forall_instruction (fun expr hexpr _ => iharguments expr hexpr) instruction hin
    · exact encodable_slot rfl hslot

end Expr

-- ============================================================================
-- Emitting
-- ============================================================================

namespace Emission

/-- Whether an emission is another one with these instructions after it. -/
structure Appends (before after : Emission) (code : List Instruction) : Prop where
  code_eq : after.code.toList = before.code.toList ++ Chunk.bytesOf code
  constants_le : Extends after.pool.constants before.pool.constants
  bounded : after.pool.Bounded

theorem Appends.refl {emission : Emission} (h : emission.pool.Bounded) :
    emission.Appends emission [] :=
  ⟨by simp, Extends.refl _, h⟩

theorem Appends.trans {first second third : Emission} {code more : List Instruction}
    (h₁ : first.Appends second code) (h₂ : second.Appends third more) :
    first.Appends third (code ++ more) :=
  ⟨by simp [h₂.code_eq, h₁.code_eq], h₂.constants_le.trans h₁.constants_le, h₂.bounded⟩

theorem appends_bare {emission : Emission} (h : emission.pool.Bounded) {op : Opcode}
    (hop : op.takesConstant = false) :
    emission.Appends (emission.bare op) [Instruction.bare op] :=
  ⟨by simp [bare, Instruction.bare, Instruction.bytes, hop], Extends.refl _, h⟩

theorem appends_foldl_bare {emission : Emission} (h : emission.pool.Bounded) {ops : List Opcode}
    (hops : ∀ op ∈ ops, op.takesConstant = false) :
    emission.Appends (ops.foldl bare emission) (ops.map Instruction.bare) := by
  induction ops generalizing emission with
  | nil => exact Appends.refl h
  | cons op ops ih =>
    have hfirst : emission.Appends (emission.bare op) [Instruction.bare op] :=
      appends_bare h (hops op (List.mem_cons_self ..))
    exact hfirst.trans
      (ih hfirst.bounded fun other hother => hops other (List.mem_cons_of_mem _ hother))

theorem appends_withScalar {before after : Emission} (hb : before.pool.Bounded) {op : Opcode}
    (hop : op.takesConstant = true) {value : Scalar} (h : before.withScalar op value = .ok after) :
    ∃ slot, before.Appends after [⟨op, slot⟩] ∧
      HasSlot after.pool.constants slot (.scalar value) := by
  obtain ⟨bytes, constants⟩ := before
  simp only [withScalar] at h
  split at h
  · cases h
  · rename_i slot pool hslot
    cases h
    obtain ⟨hbounded, hextends, hfound⟩ := Pool.scalarSlot?_spec hb hslot
    exact ⟨slot, ⟨by simp [indexed, Instruction.bytes, hop], hextends, hbounded⟩, hfound⟩

theorem appends_withCall {before after : Emission} {op : Opcode}
    (hop : op.takesConstant = true) {name : String} {argumentCount : Nat}
    (h : before.withCall op name argumentCount = .ok after) :
    ∃ slot, before.Appends after [⟨op, slot⟩] ∧
      HasSlot after.pool.constants slot (.call name argumentCount) := by
  obtain ⟨bytes, constants⟩ := before
  simp only [withCall] at h
  split at h
  · cases h
  · rename_i slot pool hslot
    cases h
    obtain ⟨hbounded, hextends, hfound⟩ := Pool.callSlot?_spec hslot
    exact ⟨slot, ⟨by simp [indexed, Instruction.bytes, hop], hextends, hbounded⟩, hfound⟩

end Emission

namespace Expr

open Emission (Appends)

/-- What one expression appends, for the induction over trees: its code over the
    constants that are there afterwards. -/
def EmitsCode (expr : Expr) : Prop :=
  ∀ before after : Emission, before.pool.Bounded → Expr.emit before expr = .ok after →
    ∃ code, before.Appends after code ∧ IsCode after.pool.constants expr code

theorem emitAll_areCode {exprs : List Expr} (hmem : ∀ expr ∈ exprs, EmitsCode expr)
    {before after : Emission} (hb : before.pool.Bounded)
    (h : Expr.emitAll before exprs = .ok after) :
    ∃ code, before.Appends after code ∧ AreCode after.pool.constants exprs code := by
  induction exprs generalizing before with
  | nil =>
    cases h
    exact ⟨[], Appends.refl hb, rfl⟩
  | cons expr exprs ih =>
    rw [Expr.emitAll] at h
    split at h
    · cases h
    · rename_i middle hmiddle
      obtain ⟨first, hfirst, hcode⟩ := hmem expr (List.mem_cons_self ..) before middle hb hmiddle
      obtain ⟨others, hothers, hcodes⟩ :=
        ih (fun other hother => hmem other (List.mem_cons_of_mem _ hother)) hfirst.bounded h
      exact ⟨first ++ others, hfirst.trans hothers,
        first, others, hcode.extends hothers.constants_le, hcodes, rfl⟩

theorem EmitsCode.unary {symbol : String} {operand : Expr} (ih : EmitsCode operand) :
    EmitsCode (.unary symbol operand) := by
  intro before after hb h
  rw [Expr.emit] at h
  split at h
  · cases h
  rename_i middle hmiddle
  obtain ⟨inner, hinner, hcode⟩ := ih before middle hb hmiddle
  split at h
  · cases h
  · rename_i ops hops
    cases h
    have hlast := Emission.appends_foldl_bare hinner.bounded (takesConstant_unaryInstructions hops)
    exact ⟨_, hinner.trans hlast, inner, ops, hcode.extends hlast.constants_le, hops, rfl⟩

theorem EmitsCode.binary {symbol : String} {left right : Expr} (ihleft : EmitsCode left)
    (ihright : EmitsCode right) : EmitsCode (.binary symbol left right) := by
  intro before after hb h
  rw [Expr.emit] at h
  split at h
  · cases h
  rename_i op hop
  split at h
  · cases h
  rename_i first hfirst
  split at h
  · cases h
  rename_i second hsecond
  cases h
  obtain ⟨code₁, happends₁, hcode₁⟩ := ihleft before first hb hfirst
  obtain ⟨code₂, happends₂, hcode₂⟩ := ihright first second happends₁.bounded hsecond
  have hlast := Emission.appends_bare happends₂.bounded (takesConstant_binaryOpcode hop)
  exact ⟨_, (happends₁.trans happends₂).trans hlast, code₁, code₂, op,
    hcode₁.extends (happends₂.constants_le), hcode₂, hop, rfl⟩

theorem EmitsCode.property {receiver : Expr} {name : String} (ih : EmitsCode receiver) :
    EmitsCode (.property receiver name) := by
  intro before after hb h
  rw [Expr.emit] at h
  split at h
  · cases h
  rename_i middle hmiddle
  obtain ⟨inner, hinner, hcode⟩ := ih before middle hb hmiddle
  obtain ⟨slot, hlast, hslot⟩ := Emission.appends_withScalar hinner.bounded rfl h
  exact ⟨_, hinner.trans hlast, inner, slot, hcode.extends hlast.constants_le, hslot, rfl⟩

theorem EmitsCode.call {name : String} {arguments : List Expr}
    (ih : ∀ argument ∈ arguments, EmitsCode argument) : EmitsCode (.call name arguments) := by
  intro before after hb h
  rw [Expr.emit] at h
  split at h
  · cases h
  rename_i middle hmiddle
  obtain ⟨inner, hinner, hcode⟩ := emitAll_areCode ih hb hmiddle
  obtain ⟨slot, hlast, hslot⟩ := Emission.appends_withCall rfl h
  exact ⟨_, hinner.trans hlast, inner, slot,
    hcode.extends (fun _ _ _ => IsCode.extends hlast.constants_le), hslot, rfl⟩

theorem EmitsCode.methodCall {receiver : Expr} {name : String} {arguments : List Expr}
    (ihreceiver : EmitsCode receiver) (iharguments : ∀ argument ∈ arguments, EmitsCode argument) :
    EmitsCode (.methodCall receiver name arguments) := by
  intro before after hb h
  rw [Expr.emit] at h
  split at h
  · cases h
  rename_i first hfirst
  split at h
  · cases h
  rename_i second hsecond
  obtain ⟨code₁, happends₁, hcode₁⟩ := ihreceiver before first hb hfirst
  obtain ⟨code₂, happends₂, hcode₂⟩ := emitAll_areCode iharguments happends₁.bounded hsecond
  obtain ⟨slot, hlast, hslot⟩ := Emission.appends_withCall rfl h
  exact ⟨_, (happends₁.trans happends₂).trans hlast, code₁, code₂, slot,
    hcode₁.extends (hlast.constants_le.trans happends₂.constants_le),
    hcode₂.extends (fun _ _ _ => IsCode.extends hlast.constants_le), hslot, rfl⟩

theorem EmitsCode.list {items : List Expr} (ih : ∀ item ∈ items, EmitsCode item) :
    EmitsCode (.list items) := by
  intro before after hb h
  rw [Expr.emit] at h
  split at h
  · cases h
  rename_i middle hmiddle
  obtain ⟨inner, hinner, hcode⟩ := emitAll_areCode ih hb hmiddle
  obtain ⟨slot, hlast, hslot⟩ := Emission.appends_withScalar hinner.bounded rfl h
  exact ⟨_, hinner.trans hlast, inner, slot,
    hcode.extends (fun _ _ _ => IsCode.extends hlast.constants_le), hslot, rfl⟩

/-- Emitting an expression appends its code. -/
theorem emit_isCode (expr : Expr) : EmitsCode expr := by
  induction expr with
  | int _ | float _ | text _ | identifier _ =>
    intro before after hb h
    rw [Expr.emit] at h
    obtain ⟨slot, happends, hslot⟩ := Emission.appends_withScalar hb rfl h
    exact ⟨_, happends, slot, hslot, rfl⟩
  | bool value =>
    intro before after hb h
    rw [Expr.emit_bool] at h
    cases h
    exact ⟨_, Emission.appends_bare hb (by cases value <;> rfl), rfl⟩
  | nil =>
    intro before after hb h
    rw [Expr.emit_nil] at h
    cases h
    exact ⟨_, Emission.appends_bare hb rfl, rfl⟩
  | unary symbol operand ih => exact .unary ih
  | binary symbol left right ihleft ihright => exact .binary ihleft ihright
  | property receiver name ih => exact .property ih
  | call name arguments ih => exact .call ih
  | methodCall receiver name arguments ihreceiver iharguments =>
    exact .methodCall ihreceiver iharguments
  | list items ih => exact .list ih

/-- A compiled chunk holds the code of its expression and nothing else, and its
    constants are not more than indexes can tell apart. -/
theorem compile_isCode {expr : Expr} {chunk : Chunk} (h : expr.compile = .ok chunk) :
    chunk.constants.size ≤ maxConstants ∧ ∃ code, IsCode chunk.constants expr code ∧
      chunk.code.toList = Chunk.bytesOf code := by
  unfold compile at h
  split at h
  · cases h
  · rename_i after hafter
    cases h
    obtain ⟨code, happends, hcode⟩ := emit_isCode expr .empty after Pool.bounded_empty hafter
    exact ⟨happends.bounded, code, hcode, by simpa [Emission.empty] using happends.code_eq⟩

end Expr

end ExprMachine
