/-
  ExprMachine.Proofs.Machine.Environment

  What a run asks of its environment. Only two instructions look there: one fetches a
  part, the other calls a function, and each names what it asks for. In the code of an
  expression these requests are the identifiers and the called functions of the tree, in
  the order in which they are evaluated, whatever else the slots of their names serve
  for. Environments that answer these requests alike cannot be told apart.
-/
import ExprMachine.Proofs.Bytecode.Constants
import ExprMachine.Proofs.Machine.Execution

namespace ExprMachine

-- ============================================================================
-- Requests
-- ============================================================================

/-- What can be asked of an environment. -/
inductive Request where
  /-- The part of a name. -/
  | part (name : String)
  /-- The function that a name calls. -/
  | function (name : String)
deriving DecidableEq

/-- Whether two environments have the same answer to a request. -/
def Request.Alike (host : Host) (first second : Value) : Request → Prop
  | .part name => first.get host name = second.get host name
  | .function name => first.callable? host name = second.callable? host name

namespace Expr

mutual

/-- What an expression asks of its environment: its identifiers are parts, and the names
    of its calls are functions. Names of properties and methods are asked of receivers. -/
def requests : Expr → List Request
  | .identifier name => [.part name]
  | .call name arguments => requestsAll arguments ++ [.function name]
  | .unary _ operand => requests operand
  | .binary _ left right => requests left ++ requests right
  | .methodCall receiver _ arguments => requests receiver ++ requestsAll arguments
  | .property receiver _ => requests receiver
  | .list items => requestsAll items
  | .bool _ | .nil | .float _ | .int _ | .text _ => []

/-- What some expressions ask for, one after the other. -/
def requestsAll : List Expr → List Request
  | [] => []
  | expr :: exprs => requests expr ++ requestsAll exprs

end

end Expr

-- ============================================================================
-- Requests of instructions
-- ============================================================================

namespace Mnemonic

/-- What an instruction asks of the environment. -/
def request? : Mnemonic → Option Request
  | ⟨.fetch, some (.scalar (.text name))⟩ => some (.part name)
  | ⟨.call, some (.call name _)⟩ => some (.function name)
  | _ => none

/-- Instructions without constants ask for nothing. -/
theorem filterMap_request?_bare (ops : List Opcode) :
    (ops.map bare).filterMap request? = [] := by
  rw [List.filterMap_map, List.filterMap_eq_nil_iff]
  intro op _
  cases op <;> rfl

end Mnemonic

namespace Expr

open Mnemonic

theorem requests_assemblyAll {exprs : List Expr}
    (h : ∀ expr ∈ exprs, expr.assembly.filterMap request? = expr.requests) :
    (assemblyAll exprs).filterMap request? = requestsAll exprs := by
  induction exprs with
  | nil => rfl
  | cons expr exprs ih =>
    obtain ⟨hexpr, hexprs⟩ := List.forall_mem_cons.1 h
    rw [assemblyAll, List.filterMap_append, hexpr, ih hexprs, requestsAll]

/-- The instructions of an expression ask for what the expression asks for. -/
theorem requests_assembly (expr : Expr) : expr.assembly.filterMap request? = expr.requests := by
  induction expr with
  | int | float | text | nil | identifier => rfl
  | bool value => cases value <;> rfl
  | unary symbol operand ih =>
    rw [assembly, List.filterMap_append, ih, filterMap_request?_bare, List.append_nil, requests]
  | binary symbol left right ihLeft ihRight =>
    rw [assembly, List.filterMap_append, List.filterMap_append, ihLeft, ihRight,
      filterMap_request?_bare, List.append_nil, requests]
  | property receiver name ih =>
    rw [assembly, List.filterMap_append, ih, requests]
    exact List.append_nil _
  | call name arguments ih =>
    rw [assembly, List.filterMap_append, requests_assemblyAll ih, requests]
    rfl
  | methodCall receiver name arguments ih ihArguments =>
    rw [assembly, List.filterMap_append, List.filterMap_append, ih,
      requests_assemblyAll ihArguments, requests]
    exact List.append_nil _
  | list items ih =>
    rw [assembly, List.filterMap_append, requests_assemblyAll ih, requests]
    exact List.append_nil _

end Expr

-- ============================================================================
-- Runs in two environments
-- ============================================================================

namespace Machine

variable {host : Host} {operators : Registry} {first second : Value}
  {constants : Array Constant}

/-- An instruction does the same in both environments if they answer its request alike. -/
theorem step_of_alike {instruction : Instruction} {mnemonic : Mnemonic}
    (link : Links constants instruction mnemonic)
    (alike : ∀ request, mnemonic.request? = some request → request.Alike host first second)
    (offset : Nat) (stack : Stack) :
    step ⟨host, operators, first⟩ constants offset instruction.op instruction.index stack =
      step ⟨host, operators, second⟩ constants offset instruction.op instruction.index stack := by
  cases link with
  | @bare op plain =>
    cases op
    case fetch | call => cases plain
    all_goals rfl
  | @slot op index constant takes found =>
    cases op
    case fetch =>
      cases constant with
      | scalar value =>
        cases value with
        | text name =>
          have answer : first.get host name = second.get host name := alike (.part name) rfl
          simp only [step, nameAt, constantAt, found.2, answer]
        | int | float => simp only [step, nameAt, constantAt, found.2]
      | call => simp only [step, nameAt, constantAt, found.2]
    case call =>
      cases constant with
      | call name argumentCount =>
        have answer : first.callable? host name = second.callable? host name :=
          alike (.function name) rfl
        simp only [step, stepCall, callAt, constantAt, found.2, Context.invoke, answer]
      | scalar => simp only [step, stepCall, callAt, constantAt, found.2]
    -- No other instruction looks at the environment.
    all_goals rfl

/-- Instructions do the same in both environments if they answer all requests alike. -/
theorem execute_of_alike {code : List Instruction} {mnemonics : List Mnemonic}
    (links : List.Forall₂ (Links constants) code mnemonics)
    (alike : ∀ request ∈ mnemonics.filterMap Mnemonic.request?, request.Alike host first second)
    (offset : Nat) (stack : Stack) :
    execute ⟨host, operators, first⟩ constants offset code stack =
      execute ⟨host, operators, second⟩ constants offset code stack := by
  induction links generalizing offset stack with
  | nil => rfl
  | @cons instruction mnemonic code mnemonics link links ih =>
    have here : ∀ request, mnemonic.request? = some request → request.Alike host first second :=
      fun request h => alike request (List.mem_filterMap.2 ⟨mnemonic, List.mem_cons_self, h⟩)
    have later : ∀ request ∈ mnemonics.filterMap Mnemonic.request?,
        request.Alike host first second := by
      intro request hmem
      obtain ⟨other, hother, h⟩ := List.mem_filterMap.1 hmem
      exact alike request (List.mem_filterMap.2 ⟨other, List.mem_cons_of_mem _ hother, h⟩)
    rw [execute, execute, step_of_alike link here]
    congr 1
    funext after
    exact ih later _ after

/-- A compiled expression has the same outcome in two environments that answer what the
    expression asks for alike: the parts that its identifiers name, and the functions that
    its calls name. Nothing else of an environment matters. -/
theorem run_of_alike {expr : Expr} {chunk : Chunk} (compiled : expr.compile = .ok chunk)
    (alike : ∀ request ∈ expr.requests, request.Alike host first second) :
    run ⟨host, operators, first⟩ chunk = run ⟨host, operators, second⟩ chunk := by
  obtain ⟨-, emission, code, written, rfl⟩ := Expr.written_of_compile compiled
  have encodable : ∀ instruction ∈ code, instruction.Encodable :=
    ((List.forall₂_and_left _ _).1 (written.links.imp fun _ _ link => ⟨link.encodable, link⟩)).1
  rw [run, run, written.code_eq, runFrom_bytesOf encodable, runFrom_bytesOf encodable,
    execute_of_alike written.links (by rwa [Expr.requests_assembly])]

/-- In `x.y == f("y")` the name `y` is a property and a literal. It asks nothing of the
    environment, where `y` may be anything. -/
theorem run_of_alike_member :
    let expr : Expr :=
      .binary "==" (.property (.identifier "x") "y") (.call "f" [.text "y"])
    let host : Host := { Host.empty with call := fun _ values => .ok (values.head?.getD .nil) }
    let first : Value :=
      .map [("x", .map [("y", .text "y")]), ("f", .function ⟨0⟩), ("y", .int 1)]
    let second : Value := .map [("f", .function ⟨0⟩), ("x", .map [("y", .text "y")])]
    first.get host "y" ≠ second.get host "y" ∧
      ∃ chunk, expr.compile = .ok chunk ∧
        run ⟨host, .empty, first⟩ chunk = run ⟨host, .empty, second⟩ chunk := by
  intro expr host first second
  obtain ⟨chunk, compiled⟩ := Expr.exists_compile_iff.2
    (show expr.supported = true ∧ Constant.slotsFor expr.uses ≤ maxConstants from
      ⟨rfl, by decide⟩)
  have alike : ∀ request ∈ expr.requests, request.Alike host first second := by
    have requests : expr.requests = [.part "x", .function "f"] := rfl
    rw [requests, List.forall_mem_cons, List.forall_mem_singleton]
    exact ⟨rfl, rfl⟩
  refine ⟨?_, chunk, compiled, run_of_alike compiled alike⟩
  have found : first.get host "y" = .int 1 := rfl
  have missing : second.get host "y" = .nil := rfl
  rw [found, missing]
  exact Value.noConfusion

end Machine

end ExprMachine
