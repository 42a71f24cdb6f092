/-
  ExprMachine.Proofs.Bytecode.Assembly

  The instructions of an expression before its constants have slots: each instruction
  says its constant itself. Compiling is nothing but writing these instructions one
  after the other, so that what holds of the chunk is shown along a list and not over
  trees.
-/
import ExprMachine.Proofs.Bytecode.Code

namespace ExprMachine

/-- An instruction that says its constant itself, and not the slot that has it. -/
structure Mnemonic where
  op : Opcode
  constant : Option Constant

namespace Mnemonic

/-- An instruction without a constant. -/
def bare (op : Opcode) : Mnemonic := ⟨op, none⟩

/-- An instruction that refers to a scalar. -/
def scalar (op : Opcode) (value : Scalar) : Mnemonic := ⟨op, some (.scalar value)⟩

/-- An instruction that carries out a call. -/
def call (op : Opcode) (name : String) (argumentCount : Nat) : Mnemonic :=
  ⟨op, some (.call name argumentCount)⟩

/-- Whether an instruction says a constant just when its opcode takes one. -/
def Fits (mnemonic : Mnemonic) : Prop :=
  mnemonic.op.takesConstant = mnemonic.constant.isSome

end Mnemonic

-- ============================================================================
-- The instructions of an expression
-- ============================================================================

namespace Expr

mutual

/-- The instructions of an expression in post-order: those of its parts from left to
    right, then its own. -/
def assembly : Expr → List Mnemonic
  | .int value => [.scalar .push (.int value)]
  | .float bits => [.scalar .push (.float bits)]
  | .text value => [.scalar .push (.text value)]
  | .bool value => [.bare (if value then .pushTrue else .pushFalse)]
  | .nil => [.bare .pushNil]
  | .identifier name => [.scalar .fetch (.text name)]
  | .unary symbol operand =>
    assembly operand ++ ((unaryInstructions? symbol).getD []).map .bare
  | .binary symbol left right =>
    assembly left ++ assembly right ++ (binaryOpcode? symbol).toList.map .bare
  | .property receiver name => assembly receiver ++ [.scalar .property (.text name)]
  | .call name arguments => assemblyAll arguments ++ [.call .call name arguments.length]
  | .methodCall receiver name arguments =>
    assembly receiver ++ assemblyAll arguments ++ [.call .method name arguments.length]
  | .list items => assemblyAll items ++ [.scalar .list (.int (.ofNat items.length))]

/-- The instructions of some expressions, one after the other. -/
def assemblyAll : List Expr → List Mnemonic
  | [] => []
  | expr :: exprs => assembly expr ++ assemblyAll exprs

end

mutual

/-- Whether every operator in an expression has an instruction, or needs none. -/
def supported : Expr → Bool
  | .unary symbol operand => (unaryInstructions? symbol).isSome && supported operand
  | .binary symbol left right =>
    (binaryOpcode? symbol).isSome && supported left && supported right
  | .methodCall receiver _ arguments => supported receiver && allSupported arguments
  | .call _ arguments => allSupported arguments
  | .property receiver _ => supported receiver
  | .list items => allSupported items
  | _ => true

/-- Whether this is so in some expressions. -/
def allSupported : List Expr → Bool
  | [] => true
  | expr :: exprs => supported expr && allSupported exprs

end

theorem forall_mem_assemblyAll {property : Mnemonic → Prop} {exprs : List Expr}
    (h : ∀ expr ∈ exprs, ∀ mnemonic ∈ assembly expr, property mnemonic) :
    ∀ mnemonic ∈ assemblyAll exprs, property mnemonic := by
  induction exprs with
  | nil => exact fun _ hmem => nomatch hmem
  | cons expr exprs ih =>
    obtain ⟨hfirst, hothers⟩ := List.forall_mem_cons.1 h
    exact List.forall_mem_append.2 ⟨hfirst, ih hothers⟩

theorem fits_bare {ops : List Opcode} (h : ∀ op ∈ ops, op.takesConstant = false) :
    ∀ mnemonic ∈ ops.map Mnemonic.bare, mnemonic.Fits := by
  intro mnemonic hmem
  obtain ⟨op, hop, rfl⟩ := List.mem_map.1 hmem
  exact h op hop

/-- The opcodes and the constants of an expression's instructions go together. -/
theorem fits_assembly {expr : Expr} : ∀ mnemonic ∈ expr.assembly, mnemonic.Fits := by
  induction expr with
  | int _ | float _ | text _ | identifier _ => exact List.forall_mem_singleton.2 rfl
  | nil => exact List.forall_mem_singleton.2 rfl
  | bool value => cases value <;> exact List.forall_mem_singleton.2 rfl
  | unary symbol operand ih =>
    refine List.forall_mem_append.2 ⟨ih, fits_bare ?_⟩
    cases hops : unaryInstructions? symbol with
    | none => exact fun _ hmem => nomatch hmem
    | some ops => exact takesConstant_unaryInstructions hops
  | binary symbol left right ihleft ihright =>
    refine List.forall_mem_append.2 ⟨List.forall_mem_append.2 ⟨ihleft, ihright⟩, fits_bare ?_⟩
    intro op hop
    exact takesConstant_binaryOpcode (Option.mem_toList.1 hop)
  | property receiver name ih =>
    exact List.forall_mem_append.2 ⟨ih, List.forall_mem_singleton.2 rfl⟩
  | call name arguments ih =>
    exact List.forall_mem_append.2 ⟨forall_mem_assemblyAll ih, List.forall_mem_singleton.2 rfl⟩
  | methodCall receiver name arguments ihreceiver iharguments =>
    exact List.forall_mem_append.2 ⟨List.forall_mem_append.2
      ⟨ihreceiver, forall_mem_assemblyAll iharguments⟩, List.forall_mem_singleton.2 rfl⟩
  | list items ih =>
    exact List.forall_mem_append.2 ⟨forall_mem_assemblyAll ih, List.forall_mem_singleton.2 rfl⟩

end Expr

-- ============================================================================
-- Writing
-- ============================================================================

namespace Emission

/-- Appends an instruction, with the slot of its constant. -/
def write (emission : Emission) (mnemonic : Mnemonic) : Except CompileError Emission :=
  match mnemonic.constant with
  | none => .ok (emission.bare mnemonic.op)
  | some (.scalar value) => emission.withScalar mnemonic.op value
  | some (.call name argumentCount) => emission.withCall mnemonic.op name argumentCount

/-- Appends some instructions, one after the other. -/
def writeAll (emission : Emission) (mnemonics : List Mnemonic) : Except CompileError Emission :=
  mnemonics.foldlM write emission

theorem writeAll_append (emission : Emission) (mnemonics more : List Mnemonic) :
    emission.writeAll (mnemonics ++ more) =
      emission.writeAll mnemonics >>= fun emission => emission.writeAll more :=
  List.foldlM_append

theorem writeAll_concat (emission : Emission) (mnemonics : List Mnemonic) (last : Mnemonic) :
    emission.writeAll (mnemonics ++ [last]) =
      emission.writeAll mnemonics >>= fun emission => emission.write last := by
  rw [writeAll_append]
  congr 1
  funext middle
  exact bind_pure (middle.write last)

theorem writeAll_bare (emission : Emission) (ops : List Opcode) :
    emission.writeAll (ops.map .bare) = .ok (ops.foldl bare emission) := by
  induction ops generalizing emission with
  | nil => rfl
  | cons op ops ih => exact ih (emission.bare op)

end Emission

namespace Expr

/-- What compiling one expression is, for the induction over trees: writing its
    instructions. -/
def Writes (expr : Expr) : Prop :=
  expr.supported = true → ∀ emission, Expr.emit emission expr = emission.writeAll expr.assembly

theorem emitAll_eq_writeAll {exprs : List Expr} (hmem : ∀ expr ∈ exprs, Writes expr)
    (h : allSupported exprs = true) (emission : Emission) :
    Expr.emitAll emission exprs = emission.writeAll (assemblyAll exprs) := by
  induction exprs generalizing emission with
  | nil => rfl
  | cons expr exprs ih =>
    rw [allSupported, Bool.and_eq_true] at h
    obtain ⟨hfirst, hothers⟩ := List.forall_mem_cons.1 hmem
    rw [Expr.emitAll, assemblyAll, Emission.writeAll_append, hfirst h.1]
    cases emission.writeAll expr.assembly with
    | error => rfl
    | ok middle => exact ih hothers h.2 middle

/-- Compiling an expression whose operators all have instructions writes its
    instructions. -/
theorem emit_eq_writeAll (expr : Expr) : Writes expr := by
  induction expr with
  | int _ | float _ | text _ | identifier _ =>
    intro _ emission
    rw [Expr.emit]
    exact (bind_pure (emission.withScalar _ _)).symm
  | bool _ | nil => exact fun _ _ => rfl
  | unary symbol operand ih =>
    intro h emission
    rw [supported, Bool.and_eq_true] at h
    obtain ⟨ops, hops⟩ := Option.isSome_iff_exists.1 h.1
    rw [Expr.emit, assembly, Emission.writeAll_append, ih h.2, hops]
    cases emission.writeAll operand.assembly with
    | error => rfl
    | ok middle => exact (Emission.writeAll_bare middle ops).symm
  | binary symbol left right ihleft ihright =>
    intro h emission
    rw [supported, Bool.and_eq_true, Bool.and_eq_true] at h
    obtain ⟨op, hop⟩ := Option.isSome_iff_exists.1 h.1.1
    rw [Expr.emit, assembly, Emission.writeAll_append, Emission.writeAll_append, hop,
      ihleft h.1.2]
    cases emission.writeAll left.assembly with
    | error => rfl
    | ok middle =>
      simp only [ihright h.2]
      change _ = middle.writeAll right.assembly >>= _
      cases middle.writeAll right.assembly <;> rfl
  | property receiver name ih =>
    intro h emission
    rw [Expr.emit, assembly, Emission.writeAll_concat, ih h]
    cases emission.writeAll receiver.assembly <;> rfl
  | call name arguments ih =>
    intro h emission
    rw [Expr.emit, assembly, Emission.writeAll_concat, emitAll_eq_writeAll ih h]
    cases emission.writeAll (assemblyAll arguments) <;> rfl
  | methodCall receiver name arguments ihreceiver iharguments =>
    intro h emission
    rw [supported, Bool.and_eq_true] at h
    rw [Expr.emit, assembly, Emission.writeAll_concat, Emission.writeAll_append,
      ihreceiver h.1]
    cases emission.writeAll receiver.assembly with
    | error => rfl
    | ok middle =>
      simp only [emitAll_eq_writeAll iharguments h.2]
      change _ = middle.writeAll (assemblyAll arguments) >>= _
      cases middle.writeAll (assemblyAll arguments) <;> rfl
  | list items ih =>
    intro h emission
    rw [Expr.emit, assembly, Emission.writeAll_concat, emitAll_eq_writeAll ih h]
    cases emission.writeAll (assemblyAll items) <;> rfl

theorem supported_of_emitAll {exprs : List Expr}
    (hmem : ∀ expr ∈ exprs, ∀ before after, Expr.emit before expr = .ok after →
      expr.supported = true) {before after : Emission}
    (h : Expr.emitAll before exprs = .ok after) : allSupported exprs = true := by
  induction exprs generalizing before with
  | nil => rfl
  | cons expr exprs ih =>
    obtain ⟨hfirst, hothers⟩ := List.forall_mem_cons.1 hmem
    rw [Expr.emitAll] at h
    split at h
    · cases h
    · rename_i middle hmiddle
      rw [allSupported, hfirst before middle hmiddle, ih hothers h]
      rfl

/-- Only expressions whose operators all have instructions are compiled. -/
theorem supported_of_emit {expr : Expr} {before after : Emission}
    (h : Expr.emit before expr = .ok after) : expr.supported = true := by
  induction expr generalizing before after with
  | int _ | float _ | text _ | identifier _ | bool _ | nil => rfl
  | unary symbol operand ih =>
    rw [Expr.emit] at h
    split at h
    · cases h
    rename_i middle hmiddle
    split at h
    · cases h
    · rename_i ops hops
      rw [supported, hops, ih hmiddle]
      rfl
  | binary symbol left right ihleft ihright =>
    rw [Expr.emit] at h
    split at h
    · cases h
    rename_i op hop
    split at h
    · cases h
    rename_i middle hmiddle
    split at h
    · cases h
    · rename_i last hlast
      rw [supported, hop, ihleft hmiddle, ihright hlast]
      rfl
  | property receiver name ih =>
    rw [Expr.emit] at h
    split at h
    · cases h
    · rename_i middle hmiddle
      exact ih hmiddle
  | call name arguments ih =>
    rw [Expr.emit] at h
    split at h
    · cases h
    · rename_i middle hmiddle
      exact supported_of_emitAll (fun argument hargument _ _ => ih argument hargument) hmiddle
  | methodCall receiver name arguments ihreceiver iharguments =>
    rw [Expr.emit] at h
    split at h
    · cases h
    rename_i middle hmiddle
    split at h
    · cases h
    · rename_i last hlast
      rw [supported, ihreceiver hmiddle,
        supported_of_emitAll (fun argument hargument _ _ => iharguments argument hargument) hlast]
      rfl
  | list items ih =>
    rw [Expr.emit] at h
    split at h
    · cases h
    · rename_i middle hmiddle
      exact supported_of_emitAll (fun item hitem _ _ => ih item hitem) hmiddle

/-- Compiling is writing the instructions of an expression, provided that there are
    any for its operators. -/
theorem compile_eq_ok_iff {expr : Expr} {chunk : Chunk} :
    expr.compile = .ok chunk ↔ expr.supported = true ∧
      ∃ emission, Emission.empty.writeAll expr.assembly = .ok emission ∧
        chunk = ⟨emission.code, emission.pool.constants⟩ := by
  unfold compile
  constructor
  · intro h
    split at h
    · cases h
    · rename_i emission hemit
      cases h
      have hsupported := supported_of_emit hemit
      rw [emit_eq_writeAll expr hsupported] at hemit
      exact ⟨hsupported, emission, hemit, rfl⟩
  · rintro ⟨hsupported, emission, hwrite, rfl⟩
    rw [emit_eq_writeAll expr hsupported, hwrite]

end Expr

end ExprMachine
