/-
  ExprMachine.Bytecode.Opcode

  The instructions of the machine and their bytes. The byte of an opcode is its
  place in the list of all opcodes.
-/

namespace ExprMachine

/-- What an instruction does. -/
inductive Opcode where
  | add
  | sub
  | mul
  | div
  | pow
  | mod
  /-- Drops the top of the stack. -/
  | pop
  /-- Pushes a constant. -/
  | push
  /-- Calls a function of the environment; the constant describes the call. -/
  | call
  | not
  | negate
  /-- Replaces the top by its part whose name is the constant. -/
  | property
  /-- Pushes the part of the environment whose name is the constant. -/
  | fetch
  | pushTrue
  | pushFalse
  | pushNil
  | equal
  | notEqual
  | less
  | greater
  | lessEqual
  | greaterEqual
  | member
  | and
  | or
  /-- Calls a function of the receiver, which lies below the arguments. -/
  | method
  /-- Makes a list of as many values as the constant says. -/
  | list
deriving DecidableEq, Repr

namespace Opcode

/-- All opcodes in the order of their bytes. -/
def all : List Opcode :=
  [add, sub, mul, div, pow, mod, pop, push, call, not, negate, property, fetch, pushTrue,
   pushFalse, pushNil, equal, notEqual, less, greater, lessEqual, greaterEqual, member, and, or,
   method, list]

/-- The byte of an opcode. -/
def toByte : Opcode → UInt8
  | add => 0
  | sub => 1
  | mul => 2
  | div => 3
  | pow => 4
  | mod => 5
  | pop => 6
  | push => 7
  | call => 8
  | not => 9
  | negate => 10
  | property => 11
  | fetch => 12
  | pushTrue => 13
  | pushFalse => 14
  | pushNil => 15
  | equal => 16
  | notEqual => 17
  | less => 18
  | greater => 19
  | lessEqual => 20
  | greaterEqual => 21
  | member => 22
  | and => 23
  | or => 24
  | method => 25
  | list => 26

/-- The opcode of a byte, if the byte is one. -/
def ofByte? (byte : UInt8) : Option Opcode :=
  all[byte.toNat]?

/-- The name of an opcode in listings. -/
def name : Opcode → String
  | add => "ADD"
  | sub => "SUB"
  | mul => "MUL"
  | div => "DIV"
  | pow => "POW"
  | mod => "MOD"
  | pop => "POP"
  | push => "PUSH"
  | call => "CALL"
  | not => "NOT"
  | negate => "NEGATE"
  | property => "PROPERTY"
  | fetch => "FETCH"
  | pushTrue => "TRUE"
  | pushFalse => "FALSE"
  | pushNil => "NIL"
  | equal => "EQ"
  | notEqual => "NE"
  | less => "LT"
  | greater => "GT"
  | lessEqual => "LE"
  | greaterEqual => "GE"
  | member => "IN"
  | and => "AND"
  | or => "OR"
  | method => "METHOD"
  | list => "LIST"

/-- Whether two bytes that name a constant follow the opcode. -/
def takesConstant : Opcode → Bool
  | push | call | property | fetch | method | list => true
  | _ => false

/-! ## Bytes and opcodes -/

@[simp] theorem ofByte?_toByte (op : Opcode) : ofByte? op.toByte = some op := by
  cases op <;> rfl

theorem toByte_of_ofByte? {byte : UInt8} {op : Opcode} (h : ofByte? byte = some op) :
    op.toByte = byte := by
  have hlt : byte.toNat < 27 := by
    have := (List.getElem?_eq_some_iff.1 h).1
    simpa [all] using this
  have : ∀ n : Fin 27, ∀ op, all[n.val]? = some op → op.toByte.toNat = n.val := by decide
  exact UInt8.toNat_inj.1 (this ⟨byte.toNat, hlt⟩ op h)

theorem toByte_inj {a b : Opcode} (h : a.toByte = b.toByte) : a = b := by
  have := congrArg ofByte? h
  simpa using this

end Opcode

end ExprMachine
