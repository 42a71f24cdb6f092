/-
  ExprMachine.Bytecode.Compile

  From an expression to bytes. Operands come before their operator, receivers and
  arguments before their call, all from left to right.
-/
import ExprMachine.Bytecode.Chunk
import ExprMachine.Bytecode.Pool
import ExprMachine.Expr.Basic

namespace ExprMachine

/-! ## Errors -/

/-- Where an operator stands. -/
inductive OperatorPlace where
  | beforeOperand
  | betweenOperands
deriving DecidableEq, Repr

/-- Why an expression has no compiled form. -/
inductive CompileError where
  /-- It needs more constants than an index can tell apart. -/
  | poolOverflow
  /-- No instruction does what the operator says. -/
  | unsupportedOperator (symbol : String) (place : OperatorPlace)
deriving DecidableEq, Repr

namespace CompileError

/-- The stable code of the error. -/
def code : CompileError → String
  | .poolOverflow => "RB-C001"
  | .unsupportedOperator .. => "RB-C002"

/-- What is wrong. -/
def message : CompileError → String
  | .poolOverflow =>
    "constant pool overflow: more than " ++ toString maxConstants ++ " constants"
  | .unsupportedOperator symbol place =>
    let placeName := match place with
      | .beforeOperand => "prefix"
      | .betweenOperands => "infix"
    "operator '" ++ symbol ++ "' has no " ++ placeName ++ " instruction"

end CompileError

/-! ## Operators -/

/-- The instructions for an operator before its operand. A plus sign needs none. -/
def unaryInstructions? (symbol : String) : Option (List Opcode) :=
  if symbol = "+" then some []
  else if symbol = "-" then some [.negate]
  else if symbol = "!" ∨ symbol = "not" then some [.not]
  else none

/-- The spellings of the operators between two operands. -/
def binaryOpcodes : List (String × Opcode) :=
  [("+", .add), ("-", .sub), ("*", .mul), ("/", .div), ("^", .pow), ("%", .mod),
   ("==", .equal), ("!=", .notEqual), ("<", .less), (">", .greater), ("<=", .lessEqual),
   (">=", .greaterEqual), ("in", .member), ("and", .and), ("&&", .and), ("or", .or),
   ("||", .or)]

/-- The instruction for an operator between two operands. -/
def binaryOpcode? (symbol : String) : Option Opcode :=
  binaryOpcodes.lookup symbol

/-! ## Emitting -/

/-- What has been compiled so far. -/
structure Emission where
  code : Array UInt8
  pool : Pool

namespace Emission

/-- Nothing yet. -/
def empty : Emission := ⟨#[], .empty⟩

/-- Appends an instruction without a constant. -/
def bare (emission : Emission) (op : Opcode) : Emission :=
  { emission with code := emission.code.push op.toByte }

/-- Appends an instruction with the index of a constant. -/
def indexed (emission : Emission) (op : Opcode) (index : Nat) : Emission :=
  { emission with
    code := ((emission.code.push op.toByte).push (.ofNat (index / 256))).push (.ofNat index) }

/-- Appends an instruction that refers to a scalar. -/
def withScalar (emission : Emission) (op : Opcode) (value : Scalar) :
    Except CompileError Emission :=
  -- Taken apart, so that the pool has one owner and its arrays grow in place.
  let ⟨code, pool⟩ := emission
  match pool.scalarSlot? value with
  | none => .error .poolOverflow
  | some (slot, pool) => .ok (Emission.indexed ⟨code, pool⟩ op slot)

/-- Appends an instruction that refers to the description of a call. -/
def withCall (emission : Emission) (op : Opcode) (name : String) (argumentCount : Nat) :
    Except CompileError Emission :=
  let ⟨code, pool⟩ := emission
  match pool.callSlot? name argumentCount with
  | none => .error .poolOverflow
  | some (slot, pool) => .ok (Emission.indexed ⟨code, pool⟩ op slot)

end Emission

mutual

/-- Appends the instructions of an expression. -/
def Expr.emit (emission : Emission) : Expr → Except CompileError Emission
  | .int value => emission.withScalar .push (.int value)
  | .float bits => emission.withScalar .push (.float bits)
  | .text value => emission.withScalar .push (.text value)
  | .bool value => .ok (emission.bare (if value then .pushTrue else .pushFalse))
  | .nil => .ok (emission.bare .pushNil)
  | .identifier name => emission.withScalar .fetch (.text name)
  | .unary symbol operand =>
    match Expr.emit emission operand with
    | .error error => .error error
    | .ok emission =>
      match unaryInstructions? symbol with
      | none => .error (.unsupportedOperator symbol .beforeOperand)
      | some ops => .ok (ops.foldl .bare emission)
  -- Between operands the symbol comes first: its error wins over those inside them.
  | .binary symbol left right =>
    match binaryOpcode? symbol with
    | none => .error (.unsupportedOperator symbol .betweenOperands)
    | some op =>
      match Expr.emit emission left with
      | .error error => .error error
      | .ok emission =>
        match Expr.emit emission right with
        | .error error => .error error
        | .ok emission => .ok (emission.bare op)
  | .property receiver name =>
    match Expr.emit emission receiver with
    | .error error => .error error
    | .ok emission => emission.withScalar .property (.text name)
  | .call name arguments =>
    match Expr.emitAll emission arguments with
    | .error error => .error error
    | .ok emission => emission.withCall .call name arguments.length
  | .methodCall receiver name arguments =>
    match Expr.emit emission receiver with
    | .error error => .error error
    | .ok emission =>
      match Expr.emitAll emission arguments with
      | .error error => .error error
      | .ok emission => emission.withCall .method name arguments.length
  | .list items =>
    match Expr.emitAll emission items with
    | .error error => .error error
    | .ok emission => emission.withScalar .list (.int (.ofNat items.length))

/-- Appends the instructions of some expressions, one after the other. -/
def Expr.emitAll (emission : Emission) : List Expr → Except CompileError Emission
  | [] => .ok emission
  | expr :: exprs =>
    match Expr.emit emission expr with
    | .error error => .error error
    | .ok emission => Expr.emitAll emission exprs

end

/-- The compiled form of an expression. -/
def Expr.compile (expr : Expr) : Except CompileError Chunk :=
  match Expr.emit .empty expr with
  | .error error => .error error
  | .ok emission => .ok ⟨emission.code, emission.pool.constants⟩

end ExprMachine
