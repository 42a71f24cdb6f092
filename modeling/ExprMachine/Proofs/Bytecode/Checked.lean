/-
  ExprMachine.Proofs.Bytecode.Checked

  Compiled expressions pass the check of chunks: the code of an expression, wherever it
  stands, makes the stack higher by one.
-/
import ExprMachine.Proofs.Bytecode.Code
import ExprMachine.Proofs.Bytecode.Verifier
import ExprMachine.Proofs.Expr.Evaluator

namespace ExprMachine

namespace Chunk

variable {constants : Array Constant} {offset height : Nat}

-- ============================================================================
-- The check over instructions
-- ============================================================================

/-- The check of the bytes of an instruction checks the instruction and goes on after its
    last byte. -/
theorem checkFrom_bytes {instruction : Instruction} (h : instruction.Encodable)
    (rest : List UInt8) :
    checkFrom constants offset height (instruction.bytes ++ rest) =
      match heightAfter? constants height (.instruction instruction.op instruction.index) with
      | none => .error offset
      | some height => checkFrom constants (offset + instruction.bytes.length) height rest := by
  obtain ⟨byte, tail, hbytes, hfetch⟩ := Instruction.exists_fetch_bytes h
  rewrite [← Instruction.size_fetched, hbytes, List.cons_append, checkFrom, hfetch rest]
  rfl

theorem checkFrom_of_heightAfter {instruction : Instruction} (h : instruction.Encodable)
    {after : Nat}
    (hafter : heightAfter? constants height (.instruction instruction.op instruction.index) =
      some after) (rest : List UInt8) :
    checkFrom constants offset height (instruction.bytes ++ rest) =
      checkFrom constants (offset + instruction.bytes.length) after rest := by
  rw [checkFrom_bytes h, hafter]

/-- An instruction that needs a constant finds it when the check passes. -/
theorem index_lt_of_taken {op : Opcode} {index : Nat} (hop : op.takesConstant = true)
    (h : (taken? constants op index).isSome = true) : index < constants.size := by
  rcases Nat.lt_or_ge index constants.size with hlt | hge
  · exact hlt
  · have hnone : constants[index]? = none := Array.getElem?_eq_none hge
    cases op <;> simp_all [taken?, Opcode.takesConstant]

/-- The check has passed only if every instruction has the constant that it needs. -/
theorem taken_of_checkFrom {code : List Instruction}
    (hcode : ∀ instruction ∈ code, instruction.Encodable) {final : Nat}
    (h : checkFrom constants offset height (bytesOf code) = .ok final) :
    ∀ instruction ∈ code, (taken? constants instruction.op instruction.index).isSome = true := by
  induction code generalizing offset height with
  | nil => exact fun _ hmem => nomatch hmem
  | cons first code ih =>
    rw [bytesOf_cons, checkFrom_bytes (hcode first (List.mem_cons_self ..))] at h
    split at h
    · cases h
    · rename_i after hafter
      intro instruction hmem
      rcases List.mem_cons.1 hmem with rfl | hmem
      · obtain ⟨taken, htaken, -⟩ := Option.bind_eq_some_iff.1 hafter
        exact Option.isSome_of_mem htaken
      · exact ih (fun other hother => hcode other (List.mem_cons_of_mem _ hother)) h
          instruction hmem

end Chunk

namespace Expr

open Chunk (checkFrom checkFrom_of_heightAfter heightAfter? taken? settle? given bytesOf)

variable {constants : Array Constant} {offset height : Nat}

-- ============================================================================
-- The heights of code
-- ============================================================================

/-- What the code of one expression does to the check, for the induction over trees. -/
def RaisesByOne (constants : Array Constant) (expr : Expr) : Prop :=
  ∀ (code : List Instruction) (offset height : Nat) (rest : List UInt8),
    expr.IsCode constants code →
      checkFrom constants offset height (bytesOf code ++ rest) =
        checkFrom constants (offset + (bytesOf code).length) (height + 1) rest

theorem checkFrom_areCode {exprs : List Expr} (hmem : ∀ expr ∈ exprs, RaisesByOne constants expr)
    {code : List Instruction} (h : AreCode constants exprs code) (rest : List UInt8) :
    checkFrom constants offset height (bytesOf code ++ rest) =
      checkFrom constants (offset + (bytesOf code).length) (height + exprs.length) rest := by
  induction exprs generalizing code offset height with
  | nil =>
    cases h
    rfl
  | cons expr exprs ih =>
    obtain ⟨first, others, hfirst, hothers, rfl⟩ := h
    rw [Chunk.bytesOf_append, List.append_assoc,
      hmem expr (List.mem_cons_self ..) first offset height _ hfirst,
      ih (fun other hother => hmem other (List.mem_cons_of_mem _ hother)) hothers,
      List.length_append, List.length_cons]
    congr 1 <;> omega

theorem checkFrom_slot {op : Opcode} (hop : op.takesConstant = true) {slot : Nat}
    {constant : Constant} (hslot : HasSlot constants slot constant) {taken : Nat}
    (htaken : taken? constants op slot = some taken) {before after : Nat}
    (hheight : settle? before taken (given op) = some after) (rest : List UInt8) :
    checkFrom constants offset before (bytesOf [⟨op, slot⟩] ++ rest) =
      checkFrom constants (offset + (bytesOf [⟨op, slot⟩]).length) after rest := by
  rw [Chunk.bytesOf_cons, Chunk.bytesOf_nil, List.append_nil]
  exact checkFrom_of_heightAfter (encodable_slot hop hslot)
    (by rw [heightAfter?, htaken]; exact hheight) rest

theorem checkFrom_bare {op : Opcode} {taken : Nat} (htaken : taken? constants op 0 = some taken)
    {before after : Nat} (hheight : settle? before taken (given op) = some after)
    (rest : List UInt8) :
    checkFrom constants offset before (bytesOf [.bare op] ++ rest) =
      checkFrom constants (offset + (bytesOf [.bare op]).length) after rest := by
  rw [Chunk.bytesOf_cons, Chunk.bytesOf_nil, List.append_nil]
  exact checkFrom_of_heightAfter Instruction.encodable_bare
    (by rw [heightAfter?, Instruction.bare, htaken]; exact hheight) rest

/-- An operator before an operand keeps the height. -/
theorem checkFrom_unaryInstructions {symbol : String} {ops : List Opcode}
    (h : unaryInstructions? symbol = some ops) (rest : List UInt8) :
    checkFrom constants offset (height + 1) (bytesOf (ops.map .bare) ++ rest) =
      checkFrom constants (offset + (bytesOf (ops.map .bare)).length) (height + 1) rest := by
  unfold unaryInstructions? at h
  split at h
  · cases h; rfl
  split at h
  · cases h
    exact checkFrom_bare rfl (by simp [settle?, given]) rest
  split at h
  · cases h
    exact checkFrom_bare rfl (by simp [settle?, given]) rest
  · cases h

/-- An operator between two operands takes both and leaves one value. -/
theorem taken_binaryOpcode (constants : Array Constant) {symbol : String} {op : Opcode}
    (h : binaryOpcode? symbol = some op) :
    taken? constants op 0 = some 2 ∧ given op = 1 := by
  have hall : ∀ entry ∈ binaryOpcodes,
      taken? constants entry.2 0 = some 2 ∧ given entry.2 = 1 := by
    simp [binaryOpcodes, taken?, given]
  exact hall (symbol, op) (mem_binaryOpcodes h)

theorem settle_self (taken : Nat) : settle? (height + taken) taken 1 = some (height + 1) := by
  simp [settle?]

/-- The count of a list is what its instruction takes, as long as 64 bits hold it. -/
theorem taken_list {length slot : Nat} (hlength : length < 2 ^ 63)
    (h : HasSlot constants slot (.scalar (.int (.ofNat length)))) :
    taken? constants .list slot = some length := by
  obtain ⟨hnonneg, hcount⟩ := toNatClampNeg_ofNat hlength
  simp [taken?, h.2, hnonneg, hcount]

theorem RaisesByOne.unary {symbol : String} {operand : Expr}
    (ih : RaisesByOne constants operand) : RaisesByOne constants (.unary symbol operand) := by
  rintro code offset height rest ⟨inner, ops, hinner, hops, rfl⟩
  rw [Chunk.bytesOf_append, List.append_assoc, ih inner offset height _ hinner,
    checkFrom_unaryInstructions hops, List.length_append, Nat.add_assoc]

theorem RaisesByOne.binary {symbol : String} {left right : Expr}
    (ihleft : RaisesByOne constants left) (ihright : RaisesByOne constants right) :
    RaisesByOne constants (.binary symbol left right) := by
  rintro code offset height rest ⟨first, second, op, hfirst, hsecond, hop, rfl⟩
  obtain ⟨htaken, hgiven⟩ := taken_binaryOpcode constants hop
  have hsettle : settle? (height + 1 + 1) 2 (given op) = some (height + 1) := by
    rw [hgiven]
    exact settle_self 2
  rw [Chunk.bytesOf_append, Chunk.bytesOf_append, List.append_assoc, List.append_assoc,
    ihleft first offset height _ hfirst, ihright second _ _ _ hsecond,
    checkFrom_bare htaken hsettle]
  simp only [List.length_append, Nat.add_assoc]

theorem RaisesByOne.property {receiver : Expr} {name : String}
    (ih : RaisesByOne constants receiver) :
    RaisesByOne constants (.property receiver name) := by
  rintro code offset height rest ⟨inner, slot, hinner, hslot, rfl⟩
  have htaken : taken? constants .property slot = some 1 := by simp only [taken?, hslot.2]
  rw [Chunk.bytesOf_append, List.append_assoc, ih inner offset height _ hinner,
    checkFrom_slot rfl hslot htaken (settle_self 1), List.length_append, Nat.add_assoc]

theorem RaisesByOne.call {name : String} {arguments : List Expr}
    (ih : ∀ argument ∈ arguments, RaisesByOne constants argument) :
    RaisesByOne constants (.call name arguments) := by
  rintro code offset height rest ⟨inner, slot, hinner, hslot, rfl⟩
  have htaken : taken? constants .call slot = some arguments.length := by
    simp only [taken?, hslot.2]
  rw [Chunk.bytesOf_append, List.append_assoc, checkFrom_areCode ih hinner,
    checkFrom_slot rfl hslot htaken (settle_self arguments.length), List.length_append,
    Nat.add_assoc]

theorem RaisesByOne.methodCall {receiver : Expr} {name : String} {arguments : List Expr}
    (ihreceiver : RaisesByOne constants receiver)
    (iharguments : ∀ argument ∈ arguments, RaisesByOne constants argument) :
    RaisesByOne constants (.methodCall receiver name arguments) := by
  rintro code offset height rest ⟨first, second, slot, hfirst, hsecond, hslot, rfl⟩
  have htaken : taken? constants .method slot = some (arguments.length + 1) := by
    simp only [taken?, hslot.2]
  have hheight : height + 1 + arguments.length = height + (arguments.length + 1) := by omega
  rw [Chunk.bytesOf_append, Chunk.bytesOf_append, List.append_assoc, List.append_assoc,
    ihreceiver first offset height _ hfirst, checkFrom_areCode iharguments hsecond, hheight,
    checkFrom_slot rfl hslot htaken (settle_self (arguments.length + 1))]
  simp only [List.length_append, Nat.add_assoc]

theorem RaisesByOne.list {items : List Expr} (hlength : items.length < 2 ^ 63)
    (ih : ∀ item ∈ items, RaisesByOne constants item) :
    RaisesByOne constants (.list items) := by
  rintro code offset height rest ⟨inner, slot, hinner, hslot, rfl⟩
  rw [Chunk.bytesOf_append, List.append_assoc, checkFrom_areCode ih hinner,
    checkFrom_slot rfl hslot (taken_list hlength hslot) (settle_self items.length),
    List.length_append, Nat.add_assoc]

/-- The code of an expression makes the stack higher by one, wherever it stands and
    whatever the height. -/
theorem raisesByOne {expr : Expr} (hfits : expr.listsFit = true) : RaisesByOne constants expr := by
  induction expr with
  | int _ | float _ | text _ | identifier _ =>
    rintro code offset height rest ⟨slot, hslot, rfl⟩
    exact checkFrom_slot rfl hslot (by simp [taken?, hslot.2]) (settle_self 0) rest
  | bool value =>
    rintro code offset height rest rfl
    cases value <;> exact checkFrom_bare rfl (settle_self 0) rest
  | nil =>
    rintro code offset height rest rfl
    exact checkFrom_bare rfl (settle_self 0) rest
  | unary symbol operand ih => exact .unary (ih hfits)
  | binary symbol left right ihleft ihright =>
    simp only [Expr.listsFit, Bool.and_eq_true] at hfits
    exact .binary (ihleft hfits.1) (ihright hfits.2)
  | property receiver name ih => exact .property (ih hfits)
  | call name arguments ih =>
    simp only [Expr.listsFit, Expr.allListsFit_iff] at hfits
    exact .call fun argument hmem => ih argument hmem (hfits argument hmem)
  | methodCall receiver name arguments ihreceiver iharguments =>
    simp only [Expr.listsFit, Bool.and_eq_true, Expr.allListsFit_iff] at hfits
    exact .methodCall (ihreceiver hfits.1)
      fun argument hmem => iharguments argument hmem (hfits.2 argument hmem)
  | list items ih =>
    simp only [Expr.listsFit, Bool.and_eq_true, decide_eq_true_eq, Expr.allListsFit_iff] at hfits
    exact .list hfits.1 fun item hmem => ih item hmem (hfits.2 item hmem)

-- ============================================================================
-- Compiled chunks
-- ============================================================================

/-- A compiled chunk is made of whole instructions, every index is that of a constant,
    every constant is of the kind that its instruction needs, no instruction finds too
    few values on the stack, and one value is left at the end. -/
theorem check_compile {expr : Expr} {chunk : Chunk} (hfits : expr.listsFit = true)
    (h : expr.compile = .ok chunk) :
    chunk.check = .ok 1 ∧ ∃ code, chunk.code.toList = bytesOf code ∧
      ∀ instruction ∈ code,
        (taken? chunk.constants instruction.op instruction.index).isSome = true ∧
        (instruction.op.takesConstant = true → instruction.index < chunk.constants.size) := by
  obtain ⟨-, code, hcode, hbytes⟩ := compile_isCode h
  have hcheck : chunk.check = .ok 1 := by
    have hraise := raisesByOne hfits code 0 0 [] hcode
    rw [List.append_nil, checkFrom] at hraise
    rw [Chunk.check, hbytes, hraise]
  have htaken := Chunk.taken_of_checkFrom hcode.encodable (by rw [← hbytes]; exact hcheck)
  exact ⟨hcheck, code, hbytes, fun instruction hmem =>
    ⟨htaken instruction hmem, fun hop => Chunk.index_lt_of_taken hop (htaken instruction hmem)⟩⟩

/-- A call of a method with one argument. -/
theorem check_compile_method :
    let expr : Expr := .methodCall .nil "f" [.call "g" []]
    let chunk : Chunk := ⟨#[15, 8, 0, 0, 25, 0, 1], #[.call "g" 0, .call "f" 1]⟩
    expr.listsFit = true ∧ expr.compile = .ok chunk ∧ chunk.check = .ok 1 := by
  intro expr chunk
  have hfits : expr.listsFit = true := rfl
  have hcompile : expr.compile = .ok chunk := rfl
  exact ⟨hfits, hcompile, (check_compile hfits hcompile).1⟩

end Expr

end ExprMachine
