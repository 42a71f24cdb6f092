/-
  ExprMachine.Proofs.Machine.Compiled

  Compiled expressions mean what the expressions mean. The code of an expression, put
  anywhere into a chunk and started on any stack, pushes the value of the expression,
  or stops with the error that evaluation has. A whole chunk is the case of an empty
  stack.
-/
import ExprMachine.Proofs.Bytecode.Code
import ExprMachine.Proofs.Expr.Evaluator
import ExprMachine.Proofs.Machine.Execution

namespace ExprMachine.Machine

variable {context : Context} {constants : Array Constant} {offset slot : Nat} {stack : Stack}

-- ============================================================================
-- Instructions on stacks that have what they need
-- ============================================================================

/-- Arguments that were pushed in order are taken in order. -/
theorem popMany_reverse (values : List Value) :
    popMany offset values.length (values.reverse ++ stack) = .ok (values, stack) := by
  simp [popMany]

theorem constantAt_of_hasSlot {constant : Constant} (h : HasSlot constants slot constant) :
    constantAt constants offset slot = .ok constant := by
  simp [constantAt, h.2]

theorem step_push {value : Scalar} (h : HasSlot constants slot (.scalar value)) :
    step context constants offset .push slot stack = .ok (.ofScalar value :: stack) := by
  simp [step, literalAt, constantAt_of_hasSlot h]

theorem step_fetch {name : String} (h : HasSlot constants slot (.scalar (.text name))) :
    step context constants offset .fetch slot stack =
      .ok (context.environment.get context.host name :: stack) := by
  simp [step, nameAt, constantAt_of_hasSlot h]

theorem step_property {name : String} (h : HasSlot constants slot (.scalar (.text name)))
    (receiver : Value) :
    step context constants offset .property slot (receiver :: stack) =
      .ok (receiver.get context.host name :: stack) := by
  simp [step, stepProperty, nameAt, constantAt_of_hasSlot h, pop]

theorem step_call {name : String} {arguments : List Value}
    (h : HasSlot constants slot (.call name arguments.length)) :
    step context constants offset .call slot (arguments.reverse ++ stack) =
      (context.invoke context.environment name arguments).map (· :: stack) := by
  simp only [step, stepCall, callAt, constantAt_of_hasSlot h, popMany_reverse]
  cases context.invoke context.environment name arguments <;> rfl

theorem step_method {name : String} {receiver : Value} {arguments : List Value}
    (h : HasSlot constants slot (.call name arguments.length)) :
    step context constants offset .method slot (arguments.reverse ++ receiver :: stack) =
      (context.invoke receiver name arguments).map (· :: stack) := by
  simp only [step, stepMethod, callAt, constantAt_of_hasSlot h, popMany_reverse, pop]
  cases context.invoke receiver name arguments <;> rfl

/-- The count of a list is its length, as long as 64 bits hold it. -/
theorem countAt_ofNat {length : Nat} (hlength : length < 2 ^ 63)
    (h : HasSlot constants slot (.scalar (.int (.ofNat length)))) :
    countAt constants offset slot = .ok length := by
  obtain ⟨hnonneg, hcount⟩ := Expr.toNatClampNeg_ofNat hlength
  simp [countAt, constantAt_of_hasSlot h, hnonneg, hcount]

theorem step_list {items : List Value} (hlength : items.length < 2 ^ 63)
    (h : HasSlot constants slot (.scalar (.int (.ofNat items.length)))) :
    step context constants offset .list slot (items.reverse ++ stack) =
      .ok (.list items :: stack) := by
  simp only [step, stepList, countAt_ofNat hlength h, popMany_reverse]

/-- The instructions of an operator before an operand do what the operator means. -/
theorem execute_unaryInstructions {symbol : String} {ops : List Opcode}
    (h : unaryInstructions? symbol = some ops) (operand : Value) :
    execute context constants offset (ops.map .bare) (operand :: stack) =
      (context.applyUnary symbol operand).map (· :: stack) := by
  unfold unaryInstructions? at h
  unfold Context.applyUnary
  split at h
  · rename_i hplus
    cases h
    simp [hplus, execute, Except.map]
  rename_i hplus
  split at h
  · rename_i hminus
    cases h
    simp only [if_neg hplus, if_pos hminus, List.map_cons, List.map_nil, execute_singleton,
      Instruction.bare, step, pop]
    cases operand.negate <;> rfl
  rename_i hminus
  split at h
  · rename_i hnot
    cases h
    simp only [if_neg hplus, if_neg hminus, if_pos hnot, List.map_cons, List.map_nil,
      execute_singleton, Instruction.bare, step, pop, Except.map]
  · cases h

theorem stepOverloaded_pair (symbol : String) (left right : Value) :
    stepOverloaded context symbol offset (right :: left :: stack) =
      (context.applyOperator symbol left right).map (· :: stack) := by
  simp only [stepOverloaded, popPair]
  cases context.applyOperator symbol left right <;> rfl

theorem stepMember_pair (needle container : Value) :
    stepMember context offset (container :: needle :: stack) =
      (context.isMember needle container).map (· :: stack) := by
  simp only [stepMember, popPair]
  cases context.isMember needle container <;> rfl

/-- The instruction of an operator between two operands does what the operator means. -/
theorem step_binaryOpcode {symbol : String} {op : Opcode} (h : binaryOpcode? symbol = some op)
    (left right : Value) :
    step context constants offset op 0 (right :: left :: stack) =
      (context.applyBinary symbol left right).map (· :: stack) := by
  have hmem := Expr.mem_binaryOpcodes h
  simp only [binaryOpcodes, List.mem_cons, Prod.mk.injEq, List.not_mem_nil, or_false] at hmem
  rcases hmem with ⟨rfl, rfl⟩ | ⟨rfl, rfl⟩ | ⟨rfl, rfl⟩ | ⟨rfl, rfl⟩ | ⟨rfl, rfl⟩ | ⟨rfl, rfl⟩ |
    ⟨rfl, rfl⟩ | ⟨rfl, rfl⟩ | ⟨rfl, rfl⟩ | ⟨rfl, rfl⟩ | ⟨rfl, rfl⟩ | ⟨rfl, rfl⟩ | ⟨rfl, rfl⟩ |
    ⟨rfl, rfl⟩ | ⟨rfl, rfl⟩ | ⟨rfl, rfl⟩ | ⟨rfl, rfl⟩
  all_goals
    simp [step, Context.applyBinary, stepOverloaded_pair, stepMember_pair, stepTruth, popPair,
      Except.map]

-- ============================================================================
-- Code on any stack
-- ============================================================================

/-- What the code of one expression does, for the induction over trees. -/
def PushesValue (context : Context) (constants : Array Constant) (expr : Expr) : Prop :=
  ∀ (code : List Instruction) (offset : Nat) (stack : Stack), expr.IsCode constants code →
    execute context constants offset code stack = (expr.eval context).map (· :: stack)

/-- The codes of some expressions push their values, the last one on top. -/
theorem execute_areCode {exprs : List Expr} (offset : Nat) (stack : Stack)
    (hmem : ∀ expr ∈ exprs, PushesValue context constants expr) {code : List Instruction}
    (h : Expr.AreCode constants exprs code) :
    execute context constants offset code stack =
      (Expr.evalAll context exprs).map (·.reverse ++ stack) := by
  induction exprs generalizing code offset stack with
  | nil =>
    cases h
    rfl
  | cons expr exprs ih =>
    obtain ⟨first, others, hfirst, hothers, rfl⟩ := h
    rw [execute_append, hmem expr (List.mem_cons_self ..) first offset stack hfirst, Expr.evalAll]
    cases expr.eval context with
    | error error => rfl
    | ok value =>
      have hrest := ih (offset + (Chunk.bytesOf first).length) (value :: stack)
        (fun other hother => hmem other (List.mem_cons_of_mem _ hother)) hothers
      simp only [Except.map, bind, Except.bind] at hrest ⊢
      rw [hrest]
      cases Expr.evalAll context exprs <;> simp [pure, Except.pure]

theorem PushesValue.unary {symbol : String} {operand : Expr}
    (ih : PushesValue context constants operand) :
    PushesValue context constants (.unary symbol operand) := by
  rintro code offset stack ⟨inner, ops, hinner, hops, rfl⟩
  rw [execute_append, ih inner offset stack hinner, Expr.eval]
  cases operand.eval context with
  | error error => rfl
  | ok value => exact execute_unaryInstructions hops value

theorem PushesValue.binary {symbol : String} {left right : Expr}
    (ihleft : PushesValue context constants left)
    (ihright : PushesValue context constants right) :
    PushesValue context constants (.binary symbol left right) := by
  rintro code offset stack ⟨first, second, op, hfirst, hsecond, hop, rfl⟩
  rw [execute_append, execute_append, ihleft first offset stack hfirst, Expr.eval]
  cases left.eval context with
  | error error => rfl
  | ok leftValue =>
    have hright := ihright second (offset + (Chunk.bytesOf first).length)
      (leftValue :: stack) hsecond
    simp only [Except.map, bind, Except.bind] at hright ⊢
    rw [hright]
    cases right.eval context with
    | error error => rfl
    | ok rightValue =>
      simp only [execute_singleton, Instruction.bare, step_binaryOpcode hop]
      rfl

theorem PushesValue.property {receiver : Expr} {name : String}
    (ih : PushesValue context constants receiver) :
    PushesValue context constants (.property receiver name) := by
  rintro code offset stack ⟨inner, slot, hinner, hslot, rfl⟩
  rw [execute_append, ih inner offset stack hinner, Expr.eval_property]
  cases receiver.eval context with
  | error error => rfl
  | ok value =>
    simp only [Except.map, bind, Except.bind, execute_singleton, step_property hslot]

theorem PushesValue.call {name : String} {arguments : List Expr}
    (ih : ∀ argument ∈ arguments, PushesValue context constants argument) :
    PushesValue context constants (.call name arguments) := by
  rintro code offset stack ⟨inner, slot, hinner, hslot, rfl⟩
  rw [execute_append, execute_areCode offset stack ih hinner, Expr.eval]
  cases harguments : Expr.evalAll context arguments with
  | error error => rfl
  | ok values =>
    rw [← Expr.length_of_evalAll harguments] at hslot
    simp only [Except.map, bind, Except.bind, execute_singleton, step_call hslot]

theorem PushesValue.methodCall {receiver : Expr} {name : String} {arguments : List Expr}
    (ihreceiver : PushesValue context constants receiver)
    (iharguments : ∀ argument ∈ arguments, PushesValue context constants argument) :
    PushesValue context constants (.methodCall receiver name arguments) := by
  rintro code offset stack ⟨first, second, slot, hfirst, hsecond, hslot, rfl⟩
  rw [execute_append, execute_append, ihreceiver first offset stack hfirst, Expr.eval]
  cases receiver.eval context with
  | error error => rfl
  | ok receiverValue =>
    have hvalues := execute_areCode (offset + (Chunk.bytesOf first).length)
      (receiverValue :: stack) iharguments hsecond
    simp only [Except.map, bind, Except.bind] at hvalues ⊢
    rw [hvalues]
    cases harguments : Expr.evalAll context arguments with
    | error error => rfl
    | ok values =>
      rw [← Expr.length_of_evalAll harguments] at hslot
      simp only [execute_singleton, step_method hslot]
      rfl

theorem PushesValue.list {items : List Expr} (hlength : items.length < 2 ^ 63)
    (ih : ∀ item ∈ items, PushesValue context constants item) :
    PushesValue context constants (.list items) := by
  rintro code offset stack ⟨inner, slot, hinner, hslot, rfl⟩
  rw [execute_append, execute_areCode offset stack ih hinner, Expr.eval_list]
  cases hitems : Expr.evalAll context items with
  | error error => rfl
  | ok values =>
    rw [← Expr.length_of_evalAll hitems] at hslot hlength
    simp only [Except.map, bind, Except.bind, execute_singleton, step_list hlength hslot]

/-- The code of an expression pushes the value of the expression, wherever it stands and
    whatever is on the stack. -/
theorem execute_isCode {expr : Expr} (hfits : expr.listsFit = true) :
    PushesValue context constants expr := by
  induction expr with
  | int _ | float _ | text _ =>
    rintro code offset stack ⟨slot, hslot, rfl⟩
    rw [execute_singleton, step_push hslot]
    rfl
  | bool value =>
    rintro code offset stack rfl
    rw [execute_singleton]
    exact step_bool value 0
  | nil =>
    rintro code offset stack rfl
    rw [execute_singleton]
    exact step_nil 0
  | identifier name =>
    rintro code offset stack ⟨slot, hslot, rfl⟩
    rw [execute_singleton, step_fetch hslot]
    rfl
  | unary symbol operand ih => exact .unary (ih hfits)
  | binary symbol left right ihleft ihright =>
    simp only [Expr.listsFit, Bool.and_eq_true] at hfits
    exact .binary (ihleft hfits.1) (ihright hfits.2)
  | property receiver name ih => exact .property (ih hfits)
  | call name arguments ih =>
    simp only [Expr.listsFit, Expr.allListsFit_iff] at hfits
    exact .call fun argument hmem => ih argument hmem (hfits argument hmem)
  | methodCall receiver name arguments ihreceiver iharguments =>
    simp only [Expr.listsFit, Bool.and_eq_true, Expr.allListsFit_iff] at hfits
    exact .methodCall (ihreceiver hfits.1)
      fun argument hmem => iharguments argument hmem (hfits.2 argument hmem)
  | list items ih =>
    simp only [Expr.listsFit, Bool.and_eq_true, decide_eq_true_eq, Expr.allListsFit_iff] at hfits
    exact .list hfits.1 fun item hmem => ih item hmem (hfits.2 item hmem)

-- ============================================================================
-- Chunks
-- ============================================================================

/-- The code of a compiled expression leaves the value of the expression on the stack and
    nothing else. -/
theorem runFrom_compiled {expr : Expr} {chunk : Chunk} (hfits : expr.listsFit = true)
    (h : expr.compile = .ok chunk) :
    runFrom context chunk.constants 0 [] chunk.code.toList = (expr.eval context).map ([·]) := by
  obtain ⟨-, code, hcode, hbytes⟩ := Expr.compile_isCode h
  rw [hbytes, runFrom_bytesOf hcode.encodable]
  exact execute_isCode hfits code 0 [] hcode

theorem run_eq_eval {expr : Expr} {chunk : Chunk} (hfits : expr.listsFit = true)
    (h : expr.compile = .ok chunk) : run context chunk = expr.eval context := by
  rw [run, runFrom_compiled hfits h]
  cases expr.eval context <;> rfl

/-- Running a compiled expression has the outcome of evaluating it, and a run that
    succeeds leaves the value of the expression on the stack and nothing else. -/
theorem run_compile (context : Context) {expr : Expr} {chunk : Chunk}
    (hfits : expr.listsFit = true) (h : expr.compile = .ok chunk) :
    runFrom context chunk.constants 0 [] chunk.code.toList = (expr.eval context).map ([·]) ∧
      run context chunk = expr.eval context :=
  ⟨runFrom_compiled hfits h, run_eq_eval hfits h⟩

/-- A negated call, in a program whose functions say whether they got two arguments. -/
theorem run_compile_not_call :
    let expr : Expr := .unary "not" (.call "f" [.bool true, .nil])
    let chunk : Chunk := ⟨#[13, 15, 8, 0, 0, 9], #[.call "f" 2]⟩
    let host : Host := { Host.empty with call := fun _ values => .ok (.bool (values.length == 2)) }
    let context : Context := ⟨host, .empty, .map [("f", .function ⟨0⟩)]⟩
    expr.listsFit = true ∧ expr.compile = .ok chunk ∧ run context chunk = .ok (.bool false) := by
  intro expr chunk host context
  have hfits : expr.listsFit = true := rfl
  have hcompile : expr.compile = .ok chunk := rfl
  refine ⟨hfits, hcompile, ?_⟩
  rw [(run_compile context hfits hcompile).2]
  rfl

end ExprMachine.Machine
