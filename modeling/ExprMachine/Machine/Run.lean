/-
  ExprMachine.Machine.Run

  The stack machine. Instructions are carried out once each, from the first byte to
  the last; the value of a run is the top of the stack at its end.
-/
import ExprMachine.Bytecode.Chunk
import ExprMachine.Machine.Operations

namespace ExprMachine.Machine

/-! ## The stack -/

/-- The values of a run, the top first. -/
abbrev Stack := List Value

/-- Takes the top value. -/
def pop (offset : Nat) : Stack → Except RunError (Value × Stack)
  | [] => .error (.malformedChunk offset .stackUnderflow)
  | top :: stack => .ok (top, stack)

/-- Takes the two top values; the lower one comes first. -/
def popPair (offset : Nat) : Stack → Except RunError (Value × Value × Stack)
  | right :: left :: stack => .ok (left, right, stack)
  | _ => .error (.malformedChunk offset .stackUnderflow)

/-- Takes so many values from the top, in the order in which they were pushed. -/
def popMany (offset count : Nat) (stack : Stack) : Except RunError (List Value × Stack) :=
  let taken := stack.take count
  if taken.length < count then .error (.malformedChunk offset .stackUnderflow)
  else .ok (taken.reverse, stack.drop count)

/-! ## Constants -/

/-- The constant of an index. -/
def constantAt (constants : Array Constant) (offset index : Nat) : Except RunError Constant :=
  match constants[index]? with
  | some constant => .ok constant
  | none => .error (.malformedChunk offset .indexOutOfRange)

/-- The value of a constant. -/
def literalAt (constants : Array Constant) (offset index : Nat) : Except RunError Value :=
  match constantAt constants offset index with
  | .error error => .error error
  | .ok (.scalar value) => .ok (.ofScalar value)
  | .ok (.call ..) => .error (.malformedChunk offset .callAsLiteral)

/-- The name that a constant is. -/
def nameAt (constants : Array Constant) (offset index : Nat) : Except RunError String :=
  match constantAt constants offset index with
  | .error error => .error error
  | .ok (.scalar (.text name)) => .ok name
  | .ok _ => .error (.malformedChunk offset .expectedName)

/-- The call that a constant describes. -/
def callAt (constants : Array Constant) (offset index : Nat) : Except RunError (String × Nat) :=
  match constantAt constants offset index with
  | .error error => .error error
  | .ok (.call name argumentCount) => .ok (name, argumentCount)
  | .ok _ => .error (.malformedChunk offset .expectedCall)

/-- The number of items that a constant is. -/
def countAt (constants : Array Constant) (offset index : Nat) : Except RunError Nat :=
  match constantAt constants offset index with
  | .error error => .error error
  | .ok (.scalar (.int count)) =>
    if count < 0 then .error (.malformedChunk offset .negativeCount)
    else .ok count.toNatClampNeg
  | .ok _ => .error (.malformedChunk offset .expectedCount)

/-! ## One instruction -/

/-- Carries out an operator that has overloads. -/
def stepOverloaded (context : Context) (symbol : String) (offset : Nat) (stack : Stack) :
    Except RunError Stack :=
  match popPair offset stack with
  | .error error => .error error
  | .ok (left, right, stack) =>
    match context.applyOperator symbol left right with
    | .error error => .error error
    | .ok value => .ok (value :: stack)

/-- Carries out an operator that always has a truth value. -/
def stepTruth (test : Value → Value → Bool) (offset : Nat) (stack : Stack) :
    Except RunError Stack :=
  match popPair offset stack with
  | .error error => .error error
  | .ok (left, right, stack) => .ok (.bool (test left right) :: stack)

/-- Carries out a test of membership. -/
def stepMember (context : Context) (offset : Nat) (stack : Stack) : Except RunError Stack :=
  match popPair offset stack with
  | .error error => .error error
  | .ok (needle, container, stack) =>
    match context.isMember needle container with
    | .error error => .error error
    | .ok value => .ok (value :: stack)

/-- Takes a part of the top value. -/
def stepProperty (context : Context) (constants : Array Constant) (offset index : Nat)
    (stack : Stack) : Except RunError Stack :=
  match nameAt constants offset index with
  | .error error => .error error
  | .ok name =>
    match pop offset stack with
    | .error error => .error error
    | .ok (receiver, stack) => .ok (receiver.get context.host name :: stack)

/-- Calls a function of the environment. -/
def stepCall (context : Context) (constants : Array Constant) (offset index : Nat)
    (stack : Stack) : Except RunError Stack :=
  match callAt constants offset index with
  | .error error => .error error
  | .ok (name, argumentCount) =>
    match popMany offset argumentCount stack with
    | .error error => .error error
    | .ok (arguments, stack) =>
      match context.invoke context.environment name arguments with
      | .error error => .error error
      | .ok value => .ok (value :: stack)

/-- Calls a function of the value below the arguments. -/
def stepMethod (context : Context) (constants : Array Constant) (offset index : Nat)
    (stack : Stack) : Except RunError Stack :=
  match callAt constants offset index with
  | .error error => .error error
  | .ok (name, argumentCount) =>
    match popMany offset argumentCount stack with
    | .error error => .error error
    | .ok (arguments, stack) =>
      -- The receiver was pushed before the arguments and so lies below them.
      match pop offset stack with
      | .error error => .error error
      | .ok (receiver, stack) =>
        match context.invoke receiver name arguments with
        | .error error => .error error
        | .ok value => .ok (value :: stack)

/-- Makes a list of the top values. -/
def stepList (constants : Array Constant) (offset index : Nat) (stack : Stack) :
    Except RunError Stack :=
  match countAt constants offset index with
  | .error error => .error error
  | .ok count =>
    match popMany offset count stack with
    | .error error => .error error
    | .ok (items, stack) => .ok (.list items :: stack)

/-- Carries out the instruction at an offset. -/
def step (context : Context) (constants : Array Constant) (offset : Nat) (op : Opcode)
    (index : Nat) (stack : Stack) : Except RunError Stack :=
  match op with
  | .push =>
    match literalAt constants offset index with
    | .error error => .error error
    | .ok value => .ok (value :: stack)
  | .fetch =>
    match nameAt constants offset index with
    | .error error => .error error
    | .ok name => .ok (context.environment.get context.host name :: stack)
  | .pop =>
    match pop offset stack with
    | .error error => .error error
    | .ok (_, stack) => .ok stack
  | .pushTrue => .ok (.bool true :: stack)
  | .pushFalse => .ok (.bool false :: stack)
  | .pushNil => .ok (.nil :: stack)
  | .not =>
    match pop offset stack with
    | .error error => .error error
    | .ok (value, stack) => .ok (.bool (!value.isTruthy context.host) :: stack)
  | .negate =>
    match pop offset stack with
    | .error error => .error error
    | .ok (value, stack) =>
      match value.negate with
      | .error error => .error error
      | .ok value => .ok (value :: stack)
  | .equal => stepTruth Value.looseEq offset stack
  | .notEqual => stepTruth (fun left right => !left.looseEq right) offset stack
  | .and =>
    stepTruth (fun left right => left.isTruthy context.host && right.isTruthy context.host)
      offset stack
  | .or =>
    stepTruth (fun left right => left.isTruthy context.host || right.isTruthy context.host)
      offset stack
  | .member => stepMember context offset stack
  | .property => stepProperty context constants offset index stack
  | .call => stepCall context constants offset index stack
  | .method => stepMethod context constants offset index stack
  | .list => stepList constants offset index stack
  | .add => stepOverloaded context "+" offset stack
  | .sub => stepOverloaded context "-" offset stack
  | .mul => stepOverloaded context "*" offset stack
  | .div => stepOverloaded context "/" offset stack
  | .mod => stepOverloaded context "%" offset stack
  | .pow => stepOverloaded context "^" offset stack
  | .less => stepOverloaded context "<" offset stack
  | .greater => stepOverloaded context ">" offset stack
  | .lessEqual => stepOverloaded context "<=" offset stack
  | .greaterEqual => stepOverloaded context ">=" offset stack

/-! ## Runs -/

/-- Carries out what was fetched at an offset. -/
def stepFetched (context : Context) (constants : Array Constant) (offset : Nat)
    (fetched : Chunk.Fetched) (stack : Stack) : Except RunError Stack :=
  match fetched with
  | .instruction op index => step context constants offset op index stack
  | .unknown byte => .error (.unknownInstruction byte offset)
  | .truncated _ => .error (.malformedChunk offset .truncatedOperand)

/-- Carries out the code from an offset on. -/
def runFrom (context : Context) (constants : Array Constant) (offset : Nat) (stack : Stack) :
    List UInt8 → Except RunError Stack
  | [] => .ok stack
  | byte :: rest =>
    match _h : Chunk.fetch byte rest with
    | (fetched, after) =>
      match stepFetched context constants offset fetched stack with
      | .error error => .error error
      | .ok stack => runFrom context constants (offset + fetched.size) stack after
termination_by code => code.length
decreasing_by
  have := Chunk.length_fetch_le byte rest
  rw [_h] at this
  exact Nat.lt_succ_of_le this

/-- The value of a chunk: the top of the stack after its code, or nil if there is
    none. -/
def run (context : Context) (chunk : Chunk) : Except RunError Value :=
  match runFrom context chunk.constants 0 [] chunk.code.toList with
  | .error error => .error error
  | .ok stack => .ok (stack.head?.getD .nil)

end ExprMachine.Machine
