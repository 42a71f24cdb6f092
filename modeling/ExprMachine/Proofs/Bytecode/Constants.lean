/-
  ExprMachine.Proofs.Bytecode.Constants

  Which constants a compiled expression has: every scalar that it uses once, every call
  once for each place where it stands, in the order in which they are used first. There
  is a chunk just when two bytes can tell these constants apart. The invariant of
  writing instructions (`Written`) is kept by each instruction, or the pool is full.
-/
import Mathlib.Data.Finset.Card
import ExprMachine.Proofs.Bytecode.Assembly

namespace ExprMachine

-- ============================================================================
-- Constants in the order of their first use
-- ============================================================================

namespace Constant

/-- The scalar that a constant is. -/
def scalar? : Constant → Option Scalar
  | .scalar value => some value
  | .call .. => none

/-- Whether a constant describes a call. -/
def isCall : Constant → Bool
  | .scalar _ => false
  | .call .. => true

/-- The constants of a list in the order in which they come first: a scalar is left out
    where it comes again, the description of a call never. -/
def firstUses : List Constant → List Constant
  | [] => []
  | constant :: others =>
    constant :: (firstUses others).filter fun other => other.isCall || other != constant

/-- How many slots the constants of a list need: one for each distinct scalar, and one for
    each call. -/
def slotsFor (constants : List Constant) : Nat :=
  (constants.filterMap scalar?).toFinset.card + constants.countP isCall

theorem mem_firstUses {constant : Constant} {constants : List Constant} :
    constant ∈ firstUses constants ↔ constant ∈ constants := by
  induction constants with
  | nil => simp [firstUses]
  | cons first others ih =>
    by_cases same : constant = first <;> simp [firstUses, ih, same]

/-- A further use comes last, unless it is that of a scalar that was used before. -/
theorem firstUses_concat (constants : List Constant) (last : Constant) :
    firstUses (constants ++ [last]) =
      if last.isCall = false ∧ last ∈ constants then firstUses constants
      else firstUses constants ++ [last] := by
  induction constants with
  | nil => simp [firstUses]
  | cons first others ih =>
    rw [List.cons_append, firstUses, ih, firstUses]
    by_cases before : last.isCall = false ∧ last ∈ others
    · rw [if_pos before, if_pos ⟨before.1, List.mem_cons_of_mem _ before.2⟩]
    rw [if_neg before, List.filter_append]
    by_cases again : last.isCall = false ∧ last = first
    · obtain ⟨scalar, rfl⟩ := again
      rw [if_pos ⟨scalar, List.mem_cons_self⟩]
      simp [scalar]
    · have fresh : ¬ (last.isCall = false ∧ last ∈ first :: others) := by
        rw [List.mem_cons]
        tauto
      have kept : (last.isCall || last != first) = true := by
        cases hcall : last.isCall with
        | true => rfl
        | false => simpa [hcall] using again
      rw [if_neg fresh, List.cons_append]
      simp [kept]

/-- More uses need no fewer slots. -/
theorem length_firstUses_le (constants more : List Constant) :
    (firstUses constants).length ≤ (firstUses (constants ++ more)).length := by
  induction more using List.reverseRecOn with
  | nil => rw [List.append_nil]
  | append_singleton more last ih =>
    rw [← List.append_assoc, firstUses_concat]
    split
    · exact ih
    · rw [List.length_append]
      exact Nat.le_add_right_of_le ih

/-- Every scalar comes once. -/
theorem nodup_scalars (constants : List Constant) :
    ((firstUses constants).filterMap scalar?).Nodup := by
  induction constants with
  | nil => exact List.nodup_nil
  | cons first others ih =>
    rw [firstUses]
    have rest := ih.sublist ((List.filter_sublist
      (p := fun other => other.isCall || other != first)).filterMap scalar?)
    cases first with
    | call => exact rest
    | scalar value =>
      rw [List.filterMap_cons_some (show scalar? (.scalar value) = some value from rfl),
        List.nodup_cons]
      refine ⟨?_, rest⟩
      rw [List.mem_filterMap]
      rintro ⟨other, hmem, hvalue⟩
      cases other with
      | call => cases hvalue
      | scalar other =>
        cases hvalue
        simp [isCall] at hmem

theorem countP_firstUses (constants : List Constant) :
    (firstUses constants).countP isCall = constants.countP isCall := by
  induction constants with
  | nil => rfl
  | cons first others ih =>
    rw [firstUses, List.countP_cons, List.countP_cons, List.countP_filter, ← ih]
    congr 1
    refine List.countP_congr fun other _ => ?_
    cases other.isCall <;> simp

/-- First uses are as many as the slots that they need. -/
theorem length_firstUses (constants : List Constant) :
    (firstUses constants).length = slotsFor constants := by
  have scalars : ((firstUses constants).filterMap scalar?).toFinset =
      (constants.filterMap scalar?).toFinset := by
    ext value
    simp only [List.mem_toFinset, List.mem_filterMap, mem_firstUses]
  have others : (firstUses constants).countP (fun constant => !constant.isCall) =
      ((firstUses constants).filterMap scalar?).length := by
    rw [List.length_filterMap_eq_countP]
    refine List.countP_congr fun constant _ => ?_
    cases constant <;> simp [isCall, scalar?]
  rw [slotsFor, ← scalars, List.toFinset_card_of_nodup (nodup_scalars constants), ← others,
    ← countP_firstUses, List.length_eq_countP_add_countP isCall, Nat.add_comm]
  simp

end Constant

-- ============================================================================
-- Slots
-- ============================================================================

/-- What stands in the code for an instruction that says its constant: the instruction
    with an index that finds the constant, or with none. -/
inductive Links (constants : Array Constant) : Instruction → Mnemonic → Prop where
  | bare {op : Opcode} (plain : op.takesConstant = false) :
      Links constants (.bare op) ⟨op, none⟩
  | slot {op : Opcode} {index : Nat} {constant : Constant} (takes : op.takesConstant = true)
      (found : HasSlot constants index constant) :
      Links constants ⟨op, index⟩ ⟨op, some constant⟩

/-- Whether two instructions refer to different constants, or to a scalar. -/
def Apart (constants : Array Constant) (first second : Instruction) : Prop :=
  first.op.takesConstant = true → second.op.takesConstant = true → first.index = second.index →
    ∀ name argumentCount, constants[first.index]? ≠ some (.call name argumentCount)

variable {constants more : Array Constant} {code : List Instruction}
  {mnemonics : List Mnemonic}

theorem Links.extends (h : Extends more constants) {instruction : Instruction}
    {mnemonic : Mnemonic} (link : Links constants instruction mnemonic) :
    Links more instruction mnemonic := by
  cases link with
  | bare plain => exact .bare plain
  | slot takes found => exact .slot takes (found.extends h)

theorem Links.encodable {instruction : Instruction} {mnemonic : Mnemonic}
    (link : Links constants instruction mnemonic) : instruction.Encodable := by
  cases link with
  | bare _ => exact Instruction.encodable_bare
  | slot takes found => exact Expr.encodable_slot takes found

/-- Every instruction that takes a constant finds one. -/
theorem exists_slot_of_links (links : List.Forall₂ (Links constants) code mnemonics)
    {instruction : Instruction} (hmem : instruction ∈ code)
    (takes : instruction.op.takesConstant = true) :
    ∃ constant, HasSlot constants instruction.index constant := by
  induction links with
  | nil => cases hmem
  | cons link _ ih =>
    rcases List.mem_cons.1 hmem with rfl | hmem
    · cases link with
      | bare plain => cases plain.symm.trans takes
      | slot _ found => exact ⟨_, found⟩
    · exact ih hmem

/-- Instructions stay apart when there are more constants. -/
theorem apart_extends (h : Extends more constants)
    (links : List.Forall₂ (Links constants) code mnemonics)
    (apart : code.Pairwise (Apart constants)) : code.Pairwise (Apart more) := by
  refine apart.imp_of_mem fun {first second} hfirst _ hapart takes takes' same => ?_
  obtain ⟨constant, found⟩ := exists_slot_of_links links hfirst takes
  rw [h _ _ found.2, ← found.2]
  exact hapart takes takes' same

-- ============================================================================
-- Writing one instruction
-- ============================================================================

namespace Emission

/-- What writing an instruction with a constant can do: it refers to the slot that a
    scalar has, or to a new slot at the end, unless the pool is full. -/
inductive Wrote (emission : Emission) (op : Opcode) (constant : Constant) :
    Except CompileError Emission → Prop where
  | shared {slot : Nat} (scalar : constant.isCall = false)
      (known : emission.pool.constants[slot]? = some constant) :
      Wrote emission op constant (.ok (emission.indexed op slot))
  | added {pool : Pool} (new : constant.isCall = false → constant ∉ emission.pool.constants.toList)
      (room : emission.pool.constants.size < maxConstants)
      (pushed : pool.constants = emission.pool.constants.push constant) :
      Wrote emission op constant
        (.ok (indexed ⟨emission.code, pool⟩ op emission.pool.constants.size))
  | full (new : constant.isCall = false → constant ∉ emission.pool.constants.toList)
      (noRoom : maxConstants ≤ emission.pool.constants.size) :
      Wrote emission op constant (.error .poolOverflow)

theorem wrote_of_write (emission : Emission) (op : Opcode) (constant : Constant) :
    Wrote emission op constant (emission.write ⟨op, some constant⟩) := by
  obtain ⟨code, pool⟩ := emission
  cases constant with
  | scalar value =>
    have unknown (fresh : pool.slots[value]? = none) :
        Constant.scalar value ∉ pool.constants.toList := by
      intro hmem
      obtain ⟨slot, hslot⟩ := List.mem_iff_getElem?.1 hmem
      rw [Array.getElem?_toList, ← pool.slots_iff, fresh] at hslot
      cases hslot
    simp only [write, withScalar]
    cases hslot : pool.scalarSlot? value with
    | none =>
      unfold Pool.scalarSlot? at hslot
      split at hslot
      · cases hslot
      rename_i fresh
      split at hslot
      · cases hslot
      · rename_i noRoom
        exact .full (fun _ => unknown fresh) (Nat.le_of_not_lt noRoom)
    | some found =>
      unfold Pool.scalarSlot? at hslot
      split at hslot
      · rename_i slot known
        cases hslot
        exact .shared rfl ((pool.slots_iff value slot).1 known)
      rename_i fresh
      split at hslot
      · rename_i room
        cases hslot
        exact .added (fun _ => unknown fresh) room rfl
      · cases hslot
  | call name argumentCount =>
    simp only [write, withCall, Pool.callSlot?]
    by_cases room : pool.constants.size < maxConstants
    · rw [if_pos room]
      refine .added (fun scalar => ?_) room rfl
      cases scalar
    · rw [if_neg room]
      refine .full (fun scalar => ?_) (Nat.le_of_not_lt room)
      cases scalar

-- ============================================================================
-- Writing all instructions
-- ============================================================================

/-- The constants that instructions say, in their order. -/
def constantsOf (mnemonics : List Mnemonic) : List Constant :=
  mnemonics.filterMap Mnemonic.constant

/-- Whether an emission is what writing some instructions gives, and this its code. -/
structure Written (emission : Emission) (mnemonics : List Mnemonic) (code : List Instruction) :
    Prop where
  code_eq : emission.code.toList = Chunk.bytesOf code
  constants_eq : emission.pool.constants.toList = Constant.firstUses (constantsOf mnemonics)
  bounded : emission.pool.Bounded
  links : List.Forall₂ (Links emission.pool.constants) code mnemonics
  apart : code.Pairwise (Apart emission.pool.constants)

theorem written_empty : empty.Written [] [] :=
  ⟨rfl, rfl, Pool.bounded_empty, .nil, .nil⟩

variable {emission : Emission}

theorem Written.concat (h : emission.Written mnemonics code) {after : Emission}
    {instruction : Instruction} {mnemonic : Mnemonic}
    (hcode : after.code.toList = emission.code.toList ++ instruction.bytes)
    (hconstants : after.pool.constants.toList =
      Constant.firstUses (constantsOf (mnemonics ++ [mnemonic])))
    (hbounded : after.pool.Bounded)
    (hextends : Extends after.pool.constants emission.pool.constants)
    (link : Links after.pool.constants instruction mnemonic)
    (apart : ∀ earlier ∈ code, Apart after.pool.constants earlier instruction) :
    after.Written (mnemonics ++ [mnemonic]) (code ++ [instruction]) where
  code_eq := by simp [hcode, h.code_eq]
  constants_eq := hconstants
  bounded := hbounded
  links := List.rel_append (h.links.imp fun _ _ => Links.extends hextends) (.cons link .nil)
  apart := by
    refine List.pairwise_append.2 ⟨apart_extends hextends h.links h.apart,
      List.pairwise_singleton .., fun earlier hearlier last hlast => ?_⟩
    rw [List.mem_singleton.1 hlast]
    exact apart earlier hearlier

theorem constantsOf_append (mnemonics more : List Mnemonic) :
    constantsOf (mnemonics ++ more) = constantsOf mnemonics ++ constantsOf more :=
  List.filterMap_append

theorem constantsOf_concat (mnemonics : List Mnemonic) (op : Opcode) (constant : Constant) :
    constantsOf (mnemonics ++ [⟨op, some constant⟩]) = constantsOf mnemonics ++ [constant] :=
  constantsOf_append mnemonics _

/-- What is new to the pool is new among the constants that were said before. -/
theorem Written.firstUses_new (h : emission.Written mnemonics code) (op : Opcode)
    {constant : Constant}
    (new : constant.isCall = false → constant ∉ emission.pool.constants.toList) :
    Constant.firstUses (constantsOf (mnemonics ++ [⟨op, some constant⟩])) =
      emission.pool.constants.toList ++ [constant] := by
  rw [h.constants_eq] at new ⊢
  rw [constantsOf_concat, Constant.firstUses_concat, if_neg]
  rintro ⟨scalar, hmem⟩
  exact new scalar (Constant.mem_firstUses.2 hmem)

/-- One more instruction is written, unless its constant needs a slot more than there
    are. -/
theorem Written.write (h : emission.Written mnemonics code) {mnemonic : Mnemonic}
    (fits : mnemonic.Fits) :
    (∃ after instruction, emission.write mnemonic = .ok after ∧
      after.Written (mnemonics ++ [mnemonic]) (code ++ [instruction])) ∨
    (∃ error, emission.write mnemonic = .error error) ∧
      maxConstants < (Constant.firstUses (constantsOf (mnemonics ++ [mnemonic]))).length := by
  obtain ⟨op, constant⟩ := mnemonic
  cases constant with
  | none =>
    have plain : op.takesConstant = false := fits
    refine .inl ⟨emission.bare op, .bare op, rfl, h.concat ?_ ?_ h.bounded (Extends.refl _)
      (.bare plain) ?_⟩
    · simp [bare, Instruction.bare, Instruction.bytes, plain]
    · exact h.constants_eq.trans (by simp [constantsOf])
    · intro _ _ _ takes
      cases plain.symm.trans takes
  | some constant =>
    have takes : op.takesConstant = true := fits
    have bytes (pool : Pool) (slot : Nat) : (indexed ⟨emission.code, pool⟩ op slot).code.toList =
        emission.code.toList ++ (⟨op, slot⟩ : Instruction).bytes := by
      simp [indexed, Instruction.bytes, takes]
    have wrote := wrote_of_write emission op constant
    generalize emission.write ⟨op, some constant⟩ = result at wrote ⊢
    cases wrote with
    | @shared slot scalar known =>
      obtain ⟨hslot, -⟩ := Array.getElem?_eq_some_iff.1 known
      have hmem : constant ∈ constantsOf mnemonics := by
        rw [← Constant.mem_firstUses, ← h.constants_eq]
        exact List.mem_of_getElem? (Array.getElem?_toList.trans known)
      refine .inl ⟨_, ⟨op, slot⟩, rfl, h.concat (bytes emission.pool slot) ?_ h.bounded
        (Extends.refl _) (.slot takes ⟨Nat.lt_of_lt_of_le hslot h.bounded, known⟩) ?_⟩
      · rw [constantsOf_concat, Constant.firstUses_concat, if_pos ⟨scalar, hmem⟩]
        exact h.constants_eq
      · rintro earlier - - - same name argumentCount found
        rw [same] at found
        cases known.symm.trans found
        cases scalar
    | @added pool new room pushed =>
      have hextends : Extends pool.constants emission.pool.constants :=
        pushed ▸ Extends.push _ _
      have found : HasSlot pool.constants emission.pool.constants.size constant :=
        pushed ▸ Pool.hasSlot_push room constant
      refine .inl ⟨_, ⟨op, emission.pool.constants.size⟩, rfl, h.concat (bytes pool _) ?_ ?_
        hextends (.slot takes found) ?_⟩
      · rw [h.firstUses_new op new, ← Array.toList_push]
        exact congrArg Array.toList pushed
      · change pool.constants.size ≤ maxConstants
        rw [pushed, Array.size_push]
        exact room
      · -- Whatever was written before refers to a slot that was there before.
        rintro earlier hearlier takes' - same name argumentCount -
        obtain ⟨_, -, old⟩ := exists_slot_of_links h.links hearlier takes'
        obtain ⟨hlt, -⟩ := Array.getElem?_eq_some_iff.1 old
        exact absurd same (Nat.ne_of_lt hlt)
    | full new noRoom =>
      refine .inr ⟨⟨_, rfl⟩, ?_⟩
      rw [h.firstUses_new op new, List.length_append, Array.length_toList]
      exact Nat.lt_succ_of_le noRoom

/-- All instructions are written, unless their constants need more slots than there are. -/
theorem Written.writeAll (h : emission.Written mnemonics code) {more : List Mnemonic}
    (fits : ∀ mnemonic ∈ more, mnemonic.Fits) :
    (∃ after code, emission.writeAll more = .ok after ∧ after.Written (mnemonics ++ more) code) ∨
    (∃ error, emission.writeAll more = .error error) ∧
      maxConstants < (Constant.firstUses (constantsOf (mnemonics ++ more))).length := by
  induction more generalizing emission mnemonics code with
  | nil =>
    rw [List.append_nil]
    exact .inl ⟨emission, code, rfl, h⟩
  | cons mnemonic more ih =>
    obtain ⟨hfirst, hothers⟩ := List.forall_mem_cons.1 fits
    have split : mnemonics ++ mnemonic :: more = (mnemonics ++ [mnemonic]) ++ more := by simp
    rw [split, Emission.writeAll, List.foldlM_cons]
    rcases h.write hfirst with ⟨after, instruction, hwrite, hafter⟩ | ⟨⟨error, hwrite⟩, hfull⟩
    · rw [hwrite]
      exact ih hafter hothers
    · rw [hwrite]
      refine .inr ⟨⟨error, rfl⟩, Nat.lt_of_lt_of_le hfull ?_⟩
      rw [constantsOf_append _ more]
      exact Constant.length_firstUses_le _ _

end Emission

-- ============================================================================
-- Compiled expressions
-- ============================================================================

namespace Expr

open Constant (firstUses slotsFor scalar?)

/-- The constants that an expression uses, in post-order: its literals, names and list
    lengths as scalars, and a description for every call. -/
def uses (expr : Expr) : List Constant :=
  Emission.constantsOf expr.assembly

/-- An expression that is compiled is written, and its operators have instructions. -/
theorem written_of_compile {expr : Expr} {chunk : Chunk} (h : expr.compile = .ok chunk) :
    expr.supported = true ∧ ∃ (emission : Emission) (code : List Instruction),
      emission.Written expr.assembly code ∧ chunk = ⟨emission.code, emission.pool.constants⟩ := by
  obtain ⟨hsupported, emission, hwrite, hchunk⟩ := compile_eq_ok_iff.1 h
  rcases Emission.written_empty.writeAll fits_assembly with
    ⟨after, code, hafter, written⟩ | ⟨⟨error, herror⟩, -⟩
  · cases hwrite.symm.trans hafter
    exact ⟨hsupported, emission, code, written, hchunk⟩
  · cases hwrite.symm.trans herror

/-- An expression is compiled just when its operators have instructions and its constants
    have slots. -/
theorem exists_compile_iff {expr : Expr} :
    (∃ chunk, expr.compile = .ok chunk) ↔
      expr.supported = true ∧ slotsFor expr.uses ≤ maxConstants := by
  rw [← Constant.length_firstUses]
  constructor
  · rintro ⟨chunk, h⟩
    obtain ⟨hsupported, emission, code, written, -⟩ := written_of_compile h
    refine ⟨hsupported, ?_⟩
    rw [uses, ← written.constants_eq]
    exact written.bounded
  · rintro ⟨hsupported, hfits⟩
    rcases Emission.written_empty.writeAll fits_assembly with
      ⟨after, code, hafter, -⟩ | ⟨-, hfull⟩
    · exact ⟨_, compile_eq_ok_iff.2 ⟨hsupported, after, hafter, rfl⟩⟩
    · exact absurd hfits (Nat.not_le_of_lt hfull)

/-- Compiling succeeds just when every operator has an instruction and the constants need
    no more slots than two bytes can tell apart. The chunk then has exactly these slots:
    every scalar once and every call for itself, in the order of their first use. Every
    instruction refers to its own constant, and no two instructions share the slot of a
    call. -/
theorem compile_constants (expr : Expr) :
    ((∃ chunk, expr.compile = .ok chunk) ↔
      expr.supported = true ∧ slotsFor expr.uses ≤ maxConstants) ∧
    ∀ chunk, expr.compile = .ok chunk →
      chunk.constants.size = slotsFor expr.uses ∧
      (chunk.constants.toList.filterMap scalar?).Nodup ∧
      chunk.constants.toList = firstUses expr.uses ∧
      ∃ code, chunk.code.toList = Chunk.bytesOf code ∧
        List.Forall₂ (Links chunk.constants) code expr.assembly ∧
        code.Pairwise (Apart chunk.constants) := by
  refine ⟨exists_compile_iff, fun chunk h => ?_⟩
  obtain ⟨-, emission, code, written, rfl⟩ := written_of_compile h
  refine ⟨?_, ?_, written.constants_eq, code, written.code_eq, written.links, written.apart⟩
  · rw [← Constant.length_firstUses, uses, ← written.constants_eq, Array.length_toList]
  · rw [written.constants_eq]
    exact Constant.nodup_scalars _

-- Two NaNs of different bits have a slot each, a second use of one has none.
example : firstUses (Expr.list [.float 0x7FF8000000000000, .float 0x7FF8000000000001,
      .float 0x7FF8000000000000]).uses =
    [.scalar (.float 0x7FF8000000000000), .scalar (.float 0x7FF8000000000001),
      .scalar (.int 3)] := by
  decide

/-- In `["x", x].f(x.x, 2, f())` one constant is literal, name and member, another one
    length and literal. -/
theorem compile_constants_shared :
    ∃ chunk, (methodCall (.list [.text "x", .identifier "x"]) "f"
        [.property (.identifier "x") "x", .int 2, .call "f" []]).compile = .ok chunk ∧
      chunk.constants.toList =
        [.scalar (.text "x"), .scalar (.int 2), .call "f" 0, .call "f" 3] := by
  obtain ⟨compiles, constants⟩ := compile_constants (methodCall
    (.list [.text "x", .identifier "x"]) "f"
    [.property (.identifier "x") "x", .int 2, .call "f" []])
  obtain ⟨chunk, h⟩ := compiles.2 ⟨rfl, by decide⟩
  obtain ⟨-, -, uses, -⟩ := constants chunk h
  exact ⟨chunk, h, uses⟩

end Expr

end ExprMachine
