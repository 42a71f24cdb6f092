/-
  ExprMachine.Expr.Printer

  From an expression to source text, with the parentheses that a grammar asks for:
  around an operand that binds less tightly than the operator over it, and around
  whatever cannot take a part after a point.
-/
import ExprMachine.Decimal.Layout
import ExprMachine.Expr.Basic
import ExprMachine.Expr.Grammar
import ExprMachine.Text.Alphabetic

namespace ExprMachine.Expr

/-- How much space the text has. -/
inductive Spacing where
  /-- No spaces but those around word operators. -/
  | dense
  /-- Spaces around all infix operators and after commas. -/
  | expanded
deriving DecidableEq, Repr

/-! ## Literals -/

/-- Floats in source text have a point and no exponent. -/
def floatLayout : Decimal.Layout where
  tie := .up
  isPositional := fun _ => true
  showsPoint := fun _ => true
  exponentPlus := false

/-- A character inside a text literal between double quotes. -/
def literalChar (c : Char) : List Char :=
  if c = '\\' then ['\\', '\\']
  else if c = '"' then ['\\', '"']
  else if c = '\n' then ['\\', 'n']
  else if c = '\r' then ['\\', 'r']
  else if c = '\t' then ['\\', 't']
  else if c = '\x07' then ['\\', 'a']
  else if c = '\x08' then ['\\', 'b']
  else if c = '\x0b' then ['\\', 'v']
  else if c = '\x0c' then ['\\', 'f']
  else [c]

/-- The literal that denotes a text. -/
def textLiteral (text : String) : String :=
  String.ofList ('"' :: (text.toList.flatMap literalChar ++ ['"']))

/-! ## Parentheses -/

/-- Whether an operator is a word, which needs spaces to stay one. -/
def isWordOperator (symbol : String) : Bool :=
  symbol.toList.head?.any Text.isAlphabetic

/-- The priority of an infix operator; unknown operators bind least. -/
def binaryPriority (grammar : Grammar) (symbol : String) : Nat :=
  ((grammar.binary? symbol).map OperatorInfo.priority).getD 0

/-- The priority of a prefix operator; unknown operators bind most. -/
def unaryPriority (grammar : Grammar) (symbol : String) : Nat :=
  ((grammar.unary? symbol).map OperatorInfo.priority).getD Grammar.topPriority

/-- Whether an infix operator groups to the right. -/
def groupsRight (grammar : Grammar) (symbol : String) : Bool :=
  (grammar.binary? symbol).any (·.associativity == .right)

/-- Whether the operand of a prefix operator of some priority needs parentheses. -/
def wrapsUnder (grammar : Grammar) (priority : Nat) : Expr → Bool
  | .binary symbol _ _ => decide (binaryPriority grammar symbol < priority)
  | _ => false

/-- Whether an operand of an infix operator of some priority needs parentheses. On one
    side of the operator an operand of the same priority would group differently:
    there `onTie` is true. -/
def wrapsBeside (grammar : Grammar) (priority : Nat) (onTie : Bool) : Expr → Bool
  | .binary symbol _ _ =>
    let own := binaryPriority grammar symbol
    decide (own < priority) || (own == priority && onTie) || priority == 0
  | .unary symbol _ =>
    match grammar.unary? symbol with
    | none => true
    | some info => decide (info.priority ≤ priority)
  | _ => false

/-- Whether a part can follow without parentheses. -/
def takesParts : Expr → Bool
  | .identifier _ | .call .. | .property .. | .methodCall .. | .list _ => true
  | _ => false

/-- Puts a text into parentheses if need be. -/
def parenthesise (wrap : Bool) (text : String) : String :=
  if wrap then "(" ++ text ++ ")" else text

/-! ## Expressions -/

/-- What separates the expressions of a sequence. -/
def separator : Spacing → String
  | .dense => ","
  | .expanded => ", "

mutual

/-- The source text of an expression. -/
def render (grammar : Grammar) (spacing : Spacing) : Expr → String
  | .identifier name => name
  | .bool value => if value then "true" else "false"
  | .nil => "nil"
  | .int value => toString value.toInt
  | .float bits => floatLayout.text (.ofBits bits)
  | .text value => textLiteral value
  | .list items => "[" ++ (separator spacing).intercalate (renderAll grammar spacing items) ++ "]"
  | .call name arguments =>
    name ++ "(" ++ (separator spacing).intercalate (renderAll grammar spacing arguments) ++ ")"
  | .property receiver name =>
    parenthesise (!takesParts receiver) (render grammar spacing receiver) ++ "." ++ name
  | .methodCall receiver name arguments =>
    parenthesise (!takesParts receiver) (render grammar spacing receiver) ++ "." ++ name ++
      "(" ++ (separator spacing).intercalate (renderAll grammar spacing arguments) ++ ")"
  | .unary symbol operand =>
    let inner := parenthesise (wrapsUnder grammar (unaryPriority grammar symbol) operand)
      (render grammar spacing operand)
    if isWordOperator symbol then symbol ++ " " ++ inner else symbol ++ inner
  | .binary symbol left right =>
    let priority := binaryPriority grammar symbol
    let rightward := groupsRight grammar symbol
    let leftText := parenthesise (wrapsBeside grammar priority rightward left)
      (render grammar spacing left)
    let rightText := parenthesise (wrapsBeside grammar priority (!rightward) right)
      (render grammar spacing right)
    if spacing = .expanded ∨ isWordOperator symbol then
      leftText ++ " " ++ symbol ++ " " ++ rightText
    else leftText ++ symbol ++ rightText

/-- The source texts of some expressions. -/
def renderAll (grammar : Grammar) (spacing : Spacing) : List Expr → List String
  | [] => []
  | expr :: exprs => render grammar spacing expr :: renderAll grammar spacing exprs

end

/-- A method is printed as a property with arguments after it. -/
theorem render_methodCall (grammar : Grammar) (spacing : Spacing) (receiver : Expr)
    (name : String) (arguments : List Expr) :
    render grammar spacing (.methodCall receiver name arguments) =
      render grammar spacing (.property receiver name) ++
        "(" ++ (separator spacing).intercalate (renderAll grammar spacing arguments) ++ ")" := by
  rw [render, render]

end ExprMachine.Expr
