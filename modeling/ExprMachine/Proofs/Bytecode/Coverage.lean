/-
  ExprMachine.Proofs.Bytecode.Coverage

  Every operator of the standard grammar has an instruction where the grammar lets it
  stand, before an operand or between two. A tree that is read has no operators but those
  of its grammar, so that it is compiled, or its constants have no slots: an operator
  without an instruction is met at no node of it.
-/
import ExprMachine.Proofs.Bytecode.Assembly
import ExprMachine.Proofs.Expr.Names
import ExprMachine.Proofs.Expr.RoundTrip

namespace ExprMachine

-- ============================================================================
-- Nodes
-- ============================================================================

namespace Expr

mutual

/-- The tree and all trees in it. -/
def nodes : Expr → List Expr
  | .unary symbol operand => .unary symbol operand :: nodes operand
  | .binary symbol left right => .binary symbol left right :: (nodes left ++ nodes right)
  | .methodCall receiver name arguments =>
    .methodCall receiver name arguments :: (nodes receiver ++ nodesAll arguments)
  | .call name arguments => .call name arguments :: nodesAll arguments
  | .property receiver name => .property receiver name :: nodes receiver
  | .list items => .list items :: nodesAll items
  | .identifier name => [.identifier name]
  | .bool value => [.bool value]
  | .nil => [.nil]
  | .float bits => [.float bits]
  | .int value => [.int value]
  | .text value => [.text value]

/-- The nodes of some trees, one after the other. -/
def nodesAll : List Expr → List Expr
  | [] => []
  | expr :: exprs => nodes expr ++ nodesAll exprs

end

theorem supported_of_mem_nodesAll {exprs : List Expr}
    (hmem : ∀ expr ∈ exprs, expr.supported = true → ∀ node ∈ expr.nodes, node.supported = true)
    (h : allSupported exprs = true) : ∀ node ∈ nodesAll exprs, node.supported = true := by
  induction exprs with
  | nil => exact fun _ hnode => nomatch hnode
  | cons expr exprs ih =>
    rw [allSupported, Bool.and_eq_true] at h
    obtain ⟨hexpr, hexprs⟩ := List.forall_mem_cons.1 hmem
    exact List.forall_mem_append.2 ⟨hexpr h.1, ih hexprs h.2⟩

/-- A tree whose operators have instructions has only such trees in it. -/
theorem supported_of_mem_nodes {expr : Expr} (h : expr.supported = true) :
    ∀ node ∈ expr.nodes, node.supported = true := by
  induction expr with
  | identifier | bool | nil | float | int | text => exact List.forall_mem_singleton.2 rfl
  | unary symbol operand ih =>
    refine List.forall_mem_cons.2 ⟨h, ih ?_⟩
    rw [supported, Bool.and_eq_true] at h
    exact h.2
  | binary symbol left right ihLeft ihRight =>
    refine List.forall_mem_cons.2 ⟨h, ?_⟩
    rw [supported, Bool.and_eq_true, Bool.and_eq_true] at h
    exact List.forall_mem_append.2 ⟨ihLeft h.1.2, ihRight h.2⟩
  | methodCall receiver name arguments ih ihArguments =>
    refine List.forall_mem_cons.2 ⟨h, ?_⟩
    rw [supported, Bool.and_eq_true] at h
    exact List.forall_mem_append.2 ⟨ih h.1, supported_of_mem_nodesAll ihArguments h.2⟩
  | call name arguments ihArguments =>
    exact List.forall_mem_cons.2 ⟨h, supported_of_mem_nodesAll ihArguments h⟩
  | property receiver name ih => exact List.forall_mem_cons.2 ⟨h, ih h⟩
  | list items ihItems =>
    exact List.forall_mem_cons.2 ⟨h, supported_of_mem_nodesAll ihItems h⟩

end Expr

-- ============================================================================
-- Errors of writing
-- ============================================================================

namespace Emission

/-- An instruction is written unless its constant has no slot. -/
theorem write_error {emission : Emission} {mnemonic : Mnemonic} {error : CompileError}
    (h : emission.write mnemonic = .error error) : error = .poolOverflow := by
  obtain ⟨op, constant⟩ := mnemonic
  cases constant with
  | none => cases h
  | some constant =>
    cases constant with
    | scalar value =>
      simp only [write, withScalar] at h
      split at h
      · exact (Except.error.inj h).symm
      · cases h
    | call name argumentCount =>
      simp only [write, withCall] at h
      split at h
      · exact (Except.error.inj h).symm
      · cases h

theorem writeAll_error {emission : Emission} {mnemonics : List Mnemonic} {error : CompileError}
    (h : emission.writeAll mnemonics = .error error) : error = .poolOverflow := by
  induction mnemonics generalizing emission with
  | nil => cases h
  | cons mnemonic mnemonics ih =>
    rw [writeAll, List.foldlM_cons] at h
    cases hwrite : emission.write mnemonic with
    | error first =>
      rw [hwrite] at h
      cases h
      exact write_error hwrite
    | ok middle =>
      rw [hwrite] at h
      exact ih h

end Emission

/-- An expression whose operators have instructions is compiled unless a constant has no
    slot, whatever has been compiled before it. -/
theorem Expr.emit_error {expr : Expr} (h : expr.supported = true) {emission : Emission}
    {error : CompileError} (failed : Expr.emit emission expr = .error error) :
    error = .poolOverflow := by
  rw [Expr.emit_eq_writeAll expr h] at failed
  exact Emission.writeAll_error failed

-- ============================================================================
-- Operators that are read
-- ============================================================================

/-- Whether every operator of a grammar has an instruction where it may stand. -/
structure Grammar.Instructed (grammar : Grammar) : Prop where
  unary : ∀ symbol info, grammar.unary? symbol = some info →
    (unaryInstructions? symbol).isSome = true
  binary : ∀ symbol info, grammar.binary? symbol = some info →
    (binaryOpcode? symbol).isSome = true

theorem Grammar.standard_instructed : standard.Instructed where
  unary symbol info known := by
    have all : ∀ entry ∈ standardUnary, (unaryInstructions? entry.1).isSome = true := by decide
    exact all _ (mem_of_lookup known).1
  binary symbol info known := by
    have all : ∀ entry ∈ standardBinary, (binaryOpcode? entry.1).isSome = true := by decide
    exact all _ (mem_of_lookup known).1

/-- Whether all operators in a phrase have instructions. -/
def Phrase.supported : Phrase → Bool
  | .expression _ expr | .chain _ expr | .operand expr | .stem expr => expr.supported
  | .sequence _ exprs | .items _ exprs => Expr.allSupported exprs

theorem supported_of_literal? {symbol : Symbol} {expr : Expr}
    (h : symbol.literal? = some expr) : expr.supported = true := by
  have literal := isLiteral_of_literal? h
  cases expr with
  | bool | nil | float | int | text => rfl
  | _ => cases literal

theorem supported_indexes {expr : Expr} (h : expr.supported = true) (path : List String) :
    (path.foldl .property expr).supported = true := by
  induction path generalizing expr with
  | nil => exact h
  | cons index path ih => exact ih h

/-- What is read has no operators but those of the grammar. -/
theorem Reads.supported {grammar : Grammar} (instructed : grammar.Instructed) {phrase : Phrase}
    {symbols rest : List Symbol} (h : Reads grammar phrase symbols rest) :
    phrase.supported = true := by
  induction h with
  | expression _ _ ih => exact ih
  | single _ ih => exact ih
  | binary _ known _ _ ihLeft ihRight =>
    have instruction := instructed.binary _ _ known
    exact Bool.and_eq_true_iff.2 ⟨Bool.and_eq_true_iff.2 ⟨instruction, ihLeft⟩, ihRight⟩
  | literal denotes => exact supported_of_literal? denotes
  | operand _ _ ih => exact ih
  | unary known _ ih =>
    exact Bool.and_eq_true_iff.2 ⟨instructed.unary _ _ known, ih⟩
  | parentheses _ ih => exact ih
  | list _ ih => exact ih
  | name => rfl
  | call _ _ _ ihSequence => exact ihSequence
  | property _ _ ih => exact ih
  | method _ _ ihStem ihSequence => exact Bool.and_eq_true_iff.2 ⟨ihStem, ihSequence⟩
  | indexes _ _ _ ih => exact supported_indexes ih _
  | empty => rfl
  | sequence _ ih => exact ih
  | last _ _ ih => exact Bool.and_eq_true_iff.2 ⟨ih, rfl⟩
  | item _ _ _ ihItem ihItems => exact Bool.and_eq_true_iff.2 ⟨ihItem, ihItems⟩

/-- Every operator in what tokens spell has an instruction, if all those of the grammar
    have one. -/
theorem Expr.supported_of_parse {grammar : Grammar} (instructed : grammar.Instructed)
    {tokens : List Token} {expr : Expr} (h : Expr.parse grammar tokens = .ok expr) :
    expr.supported = true :=
  (Expr.reads_of_parse h).supported instructed

namespace Source

/-- A source that is parsed is compiled, or its constants have no slots. No node of its
    tree fails for want of an instruction, whatever has been compiled before the node. -/
theorem chunk_of_expr {source : String} {tree : Expr} (parsed : expr source = .ok tree) :
    ((∃ compiled, chunk source = .ok compiled) ∨
      ∃ failure, chunk source = .error failure ∧ failure.code = "RB-C001") ∧
    ∀ node ∈ tree.nodes, ∀ emission error, Expr.emit emission node = .error error →
      error.code = "RB-C001" := by
  obtain ⟨tokens, -, hparse⟩ := expr_eq_ok_iff.1 parsed
  have supported := Expr.supported_of_parse Grammar.standard_instructed hparse
  refine ⟨?_, fun node hnode emission error failed => ?_⟩
  · simp only [chunk, parsed, Expr.compile]
    cases hemit : Expr.emit .empty tree with
    | ok emission => exact .inl ⟨_, rfl⟩
    | error error =>
      cases Expr.emit_error supported hemit
      exact .inr ⟨_, rfl, rfl⟩
  · cases Expr.emit_error (Expr.supported_of_mem_nodes supported node hnode) failed
    rfl

/-- In `not -+a - !b` the minus sign stands before an operand and between two, and the plus
    sign, which takes no instruction, before one. -/
theorem chunk_of_expr_signs : ∃ tree, expr "not -+a - !b" = .ok tree ∧
    .unary "+" (.identifier "a") ∈ tree.nodes ∧
    ∀ failure, chunk "not -+a - !b" = .error failure → failure.code = "RB-C001" := by
  have parsed : expr "not -+a - !b" = .ok (.binary "-"
      (.unary "not" (.unary "-" (.unary "+" (.identifier "a"))))
      (.unary "!" (.identifier "b"))) := by
    with_unfolding_all rfl
  refine ⟨_, parsed, by simp [Expr.nodes], fun failure failed => ?_⟩
  rcases (chunk_of_expr parsed).1 with ⟨compiled, hcompiled⟩ | ⟨other, hother, hcode⟩
  · cases failed.symm.trans hcompiled
  · cases failed.symm.trans hother
    exact hcode

end Source

end ExprMachine
