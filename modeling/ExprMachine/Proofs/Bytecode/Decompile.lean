/-
  ExprMachine.Proofs.Bytecode.Decompile

  From chunks back to expressions. The instructions of a chunk are carried out on a stack
  of expressions, where each one puts together what it operates on. What comes back is
  the expression that was compiled, but for the operators that have two spellings and
  those that need no instruction; so chunks tell all other expressions apart.
-/
import ExprMachine.Proofs.Bytecode.Constants
import ExprMachine.Proofs.Expr.Evaluator

namespace ExprMachine

-- ============================================================================
-- One spelling for each operator
-- ============================================================================

namespace Expr

/-- The spelling by which an operator between two operands stands for its synonyms. -/
def infixSpelling : String → String
  | "&&" => "and"
  | "||" => "or"
  | symbol => symbol

/-- The same for an operator before its operand. -/
def prefixSpelling : String → String
  | "!" => "not"
  | symbol => symbol

mutual

/-- An expression without plus signs before operands, where `not`, `and` and `or` stand
    for their synonyms. -/
def canonical : Expr → Expr
  | .int value => .int value
  | .float bits => .float bits
  | .text value => .text value
  | .bool value => .bool value
  | .nil => .nil
  | .identifier name => .identifier name
  | .unary symbol operand =>
    if symbol = "+" then canonical operand
    else .unary (prefixSpelling symbol) (canonical operand)
  | .binary symbol left right => .binary (infixSpelling symbol) (canonical left) (canonical right)
  | .property receiver name => .property (canonical receiver) name
  | .call name arguments => .call name (canonicalAll arguments)
  | .methodCall receiver name arguments =>
    .methodCall (canonical receiver) name (canonicalAll arguments)
  | .list items => .list (canonicalAll items)

/-- Some expressions in the same form. -/
def canonicalAll : List Expr → List Expr
  | [] => []
  | expr :: exprs => canonical expr :: canonicalAll exprs

end

theorem length_canonicalAll (exprs : List Expr) : (canonicalAll exprs).length = exprs.length := by
  induction exprs with
  | nil => rfl
  | cons expr exprs ih => rw [canonicalAll, List.length_cons, List.length_cons, ih]

theorem unaryInstructions?_prefixSpelling (symbol : String) :
    unaryInstructions? (prefixSpelling symbol) = unaryInstructions? symbol := by
  unfold prefixSpelling
  split
  · decide
  · rfl

theorem binaryOpcode?_infixSpelling (symbol : String) :
    binaryOpcode? (infixSpelling symbol) = binaryOpcode? symbol := by
  unfold infixSpelling
  split
  · decide
  · decide
  · rfl

theorem assemblyAll_canonicalAll {exprs : List Expr}
    (hmem : ∀ expr ∈ exprs, expr.canonical.assembly = expr.assembly) :
    assemblyAll (canonicalAll exprs) = assemblyAll exprs := by
  induction exprs with
  | nil => rfl
  | cons expr exprs ih =>
    obtain ⟨hfirst, hothers⟩ := List.forall_mem_cons.1 hmem
    rw [canonicalAll, assemblyAll, assemblyAll, hfirst, ih hothers]

/-- Synonyms have the same instructions. -/
theorem assembly_canonical (expr : Expr) : expr.canonical.assembly = expr.assembly := by
  induction expr with
  | int _ | float _ | text _ | bool _ | nil | identifier _ => rfl
  | unary symbol operand ih =>
    rw [canonical]
    split
    · rename_i hplus
      rw [ih, assembly, hplus]
      exact (List.append_nil _).symm
    · rw [assembly, assembly, ih, unaryInstructions?_prefixSpelling]
  | binary symbol left right ihleft ihright =>
    rw [canonical, assembly, assembly, ihleft, ihright, binaryOpcode?_infixSpelling]
  | property receiver name ih => rw [canonical, assembly, assembly, ih]
  | call name arguments ih =>
    rw [canonical, assembly, assembly, assemblyAll_canonicalAll ih, length_canonicalAll]
  | methodCall receiver name arguments ihreceiver iharguments =>
    rw [canonical, assembly, assembly, ihreceiver, assemblyAll_canonicalAll iharguments,
      length_canonicalAll]
  | list items ih =>
    rw [canonical, assembly, assembly, assemblyAll_canonicalAll ih, length_canonicalAll]

end Expr

-- ============================================================================
-- From instructions to expressions
-- ============================================================================

namespace Mnemonic

/-- The first spelling of the operator that an instruction carries out. -/
def binarySymbol? (op : Opcode) : Option String :=
  (binaryOpcodes.find? fun entry => entry.2 = op).map Prod.fst

/-- Takes some expressions from a stack, the last one from its top. -/
def takeParts? (count : Nat) (stack : List Expr) : Option (List Expr × List Expr) :=
  if count ≤ stack.length then some ((stack.take count).reverse, stack.drop count) else none

/-- What an instruction without a constant makes of a stack of expressions. -/
def restoreBare? (op : Opcode) (stack : List Expr) : Option (List Expr) :=
  match op, stack with
  | .pushTrue, stack => some (.bool true :: stack)
  | .pushFalse, stack => some (.bool false :: stack)
  | .pushNil, stack => some (.nil :: stack)
  | .not, operand :: stack => some (.unary "not" operand :: stack)
  | .negate, operand :: stack => some (.unary "-" operand :: stack)
  | op, right :: left :: stack =>
    (binarySymbol? op).map fun symbol => .binary symbol left right :: stack
  | _, _ => none

/-- What an instruction that refers to a scalar makes of a stack of expressions. -/
def restoreScalar? (op : Opcode) (value : Scalar) (stack : List Expr) : Option (List Expr) :=
  match op, value, stack with
  | .push, .int value, stack => some (.int value :: stack)
  | .push, .float bits, stack => some (.float bits :: stack)
  | .push, .text value, stack => some (.text value :: stack)
  | .fetch, .text name, stack => some (.identifier name :: stack)
  | .property, .text name, receiver :: stack => some (.property receiver name :: stack)
  | .list, .int count, stack =>
    (takeParts? count.toNatClampNeg stack).map fun (items, stack) => .list items :: stack
  | _, _, _ => none

/-- What an instruction that carries out a call makes of a stack of expressions. -/
def restoreCall? (op : Opcode) (name : String) (argumentCount : Nat) (stack : List Expr) :
    Option (List Expr) :=
  match op, takeParts? argumentCount stack with
  | .call, some (arguments, stack) => some (.call name arguments :: stack)
  | .method, some (arguments, receiver :: stack) =>
    some (.methodCall receiver name arguments :: stack)
  | _, _ => none

/-- What an instruction makes of a stack of expressions. -/
def restore? (stack : List Expr) (mnemonic : Mnemonic) : Option (List Expr) :=
  match mnemonic.constant with
  | none => restoreBare? mnemonic.op stack
  | some (.scalar value) => restoreScalar? mnemonic.op value stack
  | some (.call name argumentCount) => restoreCall? mnemonic.op name argumentCount stack

/-- What some instructions make of a stack of expressions. -/
def restoreAll? (stack : List Expr) (mnemonics : List Mnemonic) : Option (List Expr) :=
  mnemonics.foldlM restore? stack

theorem restoreAll?_append (stack : List Expr) (mnemonics more : List Mnemonic) :
    restoreAll? stack (mnemonics ++ more) =
      (restoreAll? stack mnemonics).bind fun stack => restoreAll? stack more :=
  List.foldlM_append

theorem restoreAll?_singleton (stack : List Expr) (mnemonic : Mnemonic) :
    restoreAll? stack [mnemonic] = restore? stack mnemonic :=
  bind_pure (restore? stack mnemonic)

theorem takeParts?_append (parts stack : List Expr) :
    takeParts? parts.length (parts.reverse ++ stack) = some (parts, stack) := by
  have enough : parts.length ≤ (parts.reverse ++ stack).length := by simp
  rw [takeParts?, if_pos enough, List.take_left' (List.length_reverse ..),
    List.drop_left' (List.length_reverse ..), List.reverse_reverse]

end Mnemonic

namespace Expr

open Mnemonic (restore? restoreBare? restoreAll? restoreAll?_append restoreAll?_singleton
  takeParts?_append binarySymbol?)

/-- What the instructions of one expression put on a stack, for the induction over
    trees. -/
def Restores (expr : Expr) : Prop :=
  expr.supported = true → expr.listsFit = true →
    ∀ stack, restoreAll? stack expr.assembly = some (expr.canonical :: stack)

theorem restoreAll?_assemblyAll {exprs : List Expr} (hmem : ∀ expr ∈ exprs, Restores expr)
    (supported : allSupported exprs = true) (fits : allListsFit exprs = true)
    (stack : List Expr) :
    restoreAll? stack (assemblyAll exprs) = some ((canonicalAll exprs).reverse ++ stack) := by
  induction exprs generalizing stack with
  | nil => rfl
  | cons expr exprs ih =>
    obtain ⟨hfirst, hothers⟩ := List.forall_mem_cons.1 hmem
    rw [allSupported, Bool.and_eq_true] at supported
    rw [allListsFit, Bool.and_eq_true] at fits
    rw [assemblyAll, restoreAll?_append, hfirst supported.1 fits.1, Option.bind_some,
      ih hothers supported.2 fits.2, canonicalAll, List.reverse_cons, List.append_assoc]
    rfl

theorem restoreAll?_unaryInstructions {symbol : String} {ops : List Opcode}
    (h : unaryInstructions? symbol = some ops) (operand : Expr) (stack : List Expr) :
    restoreAll? (operand :: stack) (ops.map .bare) =
      some ((if symbol = "+" then operand else .unary (prefixSpelling symbol) operand) ::
        stack) := by
  unfold unaryInstructions? at h
  split at h
  · rename_i hplus
    cases h
    rw [if_pos hplus]
    rfl
  rename_i hplus
  rw [if_neg hplus]
  split at h
  · rename_i hminus
    cases h
    subst hminus
    rfl
  split at h
  · rename_i hnot
    cases h
    rcases hnot with rfl | rfl <;> rfl
  · cases h

theorem restoreBare?_binaryOpcode {symbol : String} {op : Opcode}
    (h : binaryOpcode? symbol = some op) (left right : Expr) (stack : List Expr) :
    restoreBare? op (right :: left :: stack) =
      some (.binary (infixSpelling symbol) left right :: stack) := by
  have known : ∀ entry ∈ binaryOpcodes, binarySymbol? entry.2 = some (infixSpelling entry.1) := by
    decide
  have other : ∀ entry ∈ binaryOpcodes, restoreBare? entry.2 (right :: left :: stack) =
      (binarySymbol? entry.2).map fun symbol => .binary symbol left right :: stack := by
    simp [binaryOpcodes, restoreBare?]
  rw [other (symbol, op) (mem_binaryOpcodes h), known (symbol, op) (mem_binaryOpcodes h)]
  rfl

/-- The instructions of an expression put its canonical form on the stack. -/
theorem restoreAll?_assembly (expr : Expr) : Restores expr := by
  induction expr with
  | int _ | float _ | text _ | identifier _ | nil => exact fun _ _ _ => rfl
  | bool value => cases value <;> exact fun _ _ _ => rfl
  | unary symbol operand ih =>
    intro hsupported fits stack
    rw [supported, Bool.and_eq_true] at hsupported
    obtain ⟨ops, hops⟩ := Option.isSome_iff_exists.1 hsupported.1
    rw [assembly, restoreAll?_append, ih hsupported.2 fits, hops]
    exact restoreAll?_unaryInstructions hops operand.canonical stack
  | binary symbol left right ihleft ihright =>
    intro hsupported fits stack
    rw [supported, Bool.and_eq_true, Bool.and_eq_true] at hsupported
    rw [listsFit, Bool.and_eq_true] at fits
    obtain ⟨op, hop⟩ := Option.isSome_iff_exists.1 hsupported.1.1
    rw [assembly, restoreAll?_append, restoreAll?_append, ihleft hsupported.1.2 fits.1,
      Option.bind_some, ihright hsupported.2 fits.2, hop]
    exact (restoreAll?_singleton ..).trans (restoreBare?_binaryOpcode hop ..)
  | property receiver name ih =>
    intro hsupported fits stack
    rw [assembly, restoreAll?_append, ih hsupported fits]
    rfl
  | call name arguments ih =>
    intro hsupported fits stack
    rw [assembly, restoreAll?_append, restoreAll?_assemblyAll ih hsupported fits,
      Option.bind_some, restoreAll?_singleton, ← length_canonicalAll]
    simp only [Mnemonic.call, restore?, Mnemonic.restoreCall?, takeParts?_append, canonical]
  | methodCall receiver name arguments ihreceiver iharguments =>
    intro hsupported fits stack
    rw [supported, Bool.and_eq_true] at hsupported
    rw [listsFit, Bool.and_eq_true] at fits
    rw [assembly, restoreAll?_append, restoreAll?_append, ihreceiver hsupported.1 fits.1,
      Option.bind_some, restoreAll?_assemblyAll iharguments hsupported.2 fits.2,
      Option.bind_some, restoreAll?_singleton, ← length_canonicalAll]
    simp only [Mnemonic.call, restore?, Mnemonic.restoreCall?, takeParts?_append, canonical]
  | list items ih =>
    intro hsupported fits stack
    rw [listsFit, Bool.and_eq_true, decide_eq_true_iff] at fits
    rw [assembly, restoreAll?_append, restoreAll?_assemblyAll ih hsupported fits.2,
      Option.bind_some, restoreAll?_singleton]
    simp only [Mnemonic.scalar, restore?, Mnemonic.restoreScalar?,
      (toNatClampNeg_ofNat fits.1).2]
    rw [← length_canonicalAll, takeParts?_append, canonical]
    rfl

end Expr

-- ============================================================================
-- From bytes to instructions
-- ============================================================================

namespace Chunk

/-- A fetched instruction with the constant that its index finds. -/
def mnemonic? (constants : Array Constant) : Fetched → Option Mnemonic
  | .instruction op index =>
    if op.takesConstant then constants[index]?.map fun constant => ⟨op, some constant⟩
    else some (.bare op)
  | .unknown _ | .truncated _ => none

/-- All instructions in some code with their constants. -/
def mnemonicsFrom? (constants : Array Constant) : List UInt8 → Option (List Mnemonic)
  | [] => some []
  | byte :: rest => do
    let mnemonic ← mnemonic? constants (fetch byte rest).1
    let mnemonics ← mnemonicsFrom? constants (fetch byte rest).2
    return mnemonic :: mnemonics
termination_by code => code.length
decreasing_by exact Nat.lt_succ_of_le (length_fetch_le byte rest)

/-- The expression that a chunk computes, if its instructions put together just one. -/
def decompile? (chunk : Chunk) : Option Expr := do
  let mnemonics ← mnemonicsFrom? chunk.constants chunk.code.toList
  match ← Mnemonic.restoreAll? [] mnemonics with
  | [expr] => some expr
  | _ => none

variable {constants : Array Constant}

theorem mnemonic?_of_links {instruction : Instruction} {mnemonic : Mnemonic}
    (link : Links constants instruction mnemonic) :
    mnemonic? constants (.instruction instruction.op instruction.index) = some mnemonic := by
  cases link with
  | bare plain => simp [mnemonic?, Instruction.bare, Mnemonic.bare, plain]
  | slot takes found => simp [mnemonic?, takes, found.2]

/-- What stands in the code for some instructions is read as these instructions. -/
theorem mnemonicsFrom?_bytesOf {code : List Instruction} {mnemonics : List Mnemonic}
    (links : List.Forall₂ (Links constants) code mnemonics) :
    mnemonicsFrom? constants (bytesOf code) = some mnemonics := by
  induction links with
  | nil => rw [bytesOf_nil, mnemonicsFrom?]
  | cons link _ ih =>
    obtain ⟨byte, tail, hbytes, hfetch⟩ := Instruction.exists_fetch_bytes link.encodable
    rw [bytesOf_cons, hbytes, List.cons_append, mnemonicsFrom?, hfetch, mnemonic?_of_links link,
      ih]
    rfl

/-- A compiled expression comes back in its canonical form. -/
theorem decompile?_compile {expr : Expr} (fits : expr.listsFit = true) {chunk : Chunk}
    (h : expr.compile = .ok chunk) : chunk.decompile? = some expr.canonical := by
  obtain ⟨supported, emission, code, written, rfl⟩ := Expr.written_of_compile h
  have read : mnemonicsFrom? emission.pool.constants emission.code.toList = some expr.assembly :=
    written.code_eq ▸ mnemonicsFrom?_bytesOf written.links
  rw [decompile?, read]
  change (Mnemonic.restoreAll? [] expr.assembly).bind _ = _
  rw [Expr.restoreAll?_assembly expr supported fits]
  rfl

end Chunk

-- ============================================================================
-- Equal chunks
-- ============================================================================

namespace Expr

/-- Two expressions that are compiled have the same chunk just when they are the same
    expression, up to plus signs before operands and the synonyms of `not`, `and` and
    `or`. -/
theorem compile_eq_iff {first second : Expr} (hfirst : first.listsFit = true)
    (hsecond : second.listsFit = true) {chunk other : Chunk} (h : first.compile = .ok chunk)
    (h' : second.compile = .ok other) :
    chunk = other ↔ first.canonical = second.canonical := by
  constructor
  · rintro rfl
    have back := Chunk.decompile?_compile hfirst h
    rw [Chunk.decompile?_compile hsecond h'] at back
    exact (Option.some.inj back).symm
  · intro same
    have assembly : first.assembly = second.assembly := by
      rw [← assembly_canonical first, same, assembly_canonical]
    obtain ⟨-, emission, hwrite, rfl⟩ := compile_eq_ok_iff.1 h
    obtain ⟨-, emission', hwrite', rfl⟩ := compile_eq_ok_iff.1 h'
    rw [assembly, hwrite'] at hwrite
    cases hwrite
    rfl

/-- `+f() && !g()` and `f() and not g()` have one chunk and one canonical form. -/
theorem compile_eq_iff_synonyms :
    ∃ chunk,
      (binary "&&" (.unary "+" (.call "f" [])) (.unary "!" (.call "g" []))).compile = .ok chunk ∧
      (binary "and" (.call "f" []) (.unary "not" (.call "g" []))).compile = .ok chunk ∧
      (binary "&&" (.unary "+" (.call "f" [])) (.unary "!" (.call "g" []))).canonical =
        (binary "and" (.call "f" []) (.unary "not" (.call "g" []))).canonical := by
  let chunk : Chunk := ⟨#[8, 0, 0, 8, 0, 1, 9, 23], #[.call "f" 0, .call "g" 0]⟩
  have h : (binary "&&" (.unary "+" (.call "f" [])) (.unary "!" (.call "g" []))).compile =
      .ok chunk := rfl
  have h' : (binary "and" (.call "f" []) (.unary "not" (.call "g" []))).compile =
      .ok chunk := rfl
  exact ⟨chunk, h, h', (compile_eq_iff rfl rfl h h').1 rfl⟩

end Expr

end ExprMachine
