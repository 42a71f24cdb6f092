/-
  ExprMachine.Expr.Grammar

  Operator tables: which operators stand before an operand and which between two,
  and how tightly each binds.
-/

namespace ExprMachine

/-- The side to which operators of one priority group. -/
inductive Associativity where
  | left
  | right
deriving DecidableEq, Repr

/-- How an operator binds. A higher priority binds more tightly. -/
structure OperatorInfo where
  priority : Nat
  associativity : Associativity
deriving DecidableEq, Repr

/-- The least priority that the right operand of an infix operator may have. -/
def OperatorInfo.rightBound (info : OperatorInfo) : Nat :=
  match info.associativity with
  | .left => info.priority + 1
  | .right => info.priority

/-- The operators of a language. The entry added last for a spelling counts. -/
structure Grammar where
  unaryTable : List (String × OperatorInfo)
  binaryTable : List (String × OperatorInfo)

namespace Grammar

/-- The highest priority that an operator can have. -/
def topPriority : Nat := 255

/-- No operators at all. -/
def empty : Grammar := ⟨[], []⟩

/-- Adds an operator before its operand. -/
def withUnary (grammar : Grammar) (symbol : String) (priority : Nat) : Grammar :=
  { grammar with unaryTable := (symbol, ⟨priority, .left⟩) :: grammar.unaryTable }

/-- Adds an operator between two operands. -/
def withBinary (grammar : Grammar) (symbol : String) (priority : Nat)
    (associativity : Associativity) : Grammar :=
  { grammar with binaryTable := (symbol, ⟨priority, associativity⟩) :: grammar.binaryTable }

/-- How an operator before an operand binds, if there is one of this spelling. -/
def unary? (grammar : Grammar) (symbol : String) : Option OperatorInfo :=
  grammar.unaryTable.lookup symbol

/-- How an operator between two operands binds, if there is one of this spelling. -/
def binary? (grammar : Grammar) (symbol : String) : Option OperatorInfo :=
  grammar.binaryTable.lookup symbol

/-- The standard operators between two operands, all grouping to the left. -/
def standardBinary : List (String × Nat) :=
  [("or", 1), ("||", 1), ("and", 2), ("&&", 2), ("==", 3), ("!=", 3), ("<", 3), (">", 3),
   ("<=", 3), (">=", 3), ("in", 3), ("+", 4), ("-", 4), ("*", 6), ("/", 6), ("%", 6), ("^", 7)]

/-- The standard operators before an operand. -/
def standardUnary : List (String × Nat) :=
  [("not", 5), ("!", 5), ("-", 10), ("+", 10)]

/-- The standard grammar. -/
def standard : Grammar :=
  ⟨standardUnary.map fun (symbol, priority) => (symbol, ⟨priority, .left⟩),
   standardBinary.map fun (symbol, priority) => (symbol, ⟨priority, .left⟩)⟩

/-! ## Looking up what was added -/

@[simp] theorem unary?_withUnary (grammar : Grammar) (added symbol : String) (priority : Nat) :
    (grammar.withUnary added priority).unary? symbol =
      if symbol = added then some ⟨priority, .left⟩ else grammar.unary? symbol := by
  by_cases h : symbol = added
  · simp [unary?, withUnary, h]
  · have hne : (symbol == added) = false := by simpa using h
    simp [unary?, withUnary, List.lookup_cons, h, hne]

@[simp] theorem binary?_withBinary (grammar : Grammar) (added symbol : String) (priority : Nat)
    (associativity : Associativity) :
    (grammar.withBinary added priority associativity).binary? symbol =
      if symbol = added then some ⟨priority, associativity⟩ else grammar.binary? symbol := by
  by_cases h : symbol = added
  · simp [binary?, withBinary, h]
  · have hne : (symbol == added) = false := by simpa using h
    simp [binary?, withBinary, List.lookup_cons, h, hne]

end Grammar

end ExprMachine
