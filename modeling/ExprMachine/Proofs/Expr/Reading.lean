/-
  ExprMachine.Proofs.Expr.Reading

  Which expression stands at the front of a list of tokens, as a relation: one rule
  for each form of the language, without positions, errors or limits of depth.
  Operands grow to the right by parts and expressions by infix operators, and a phrase
  is complete when nothing that follows could still be taken.
-/
import ExprMachine.Expr.Grammar
import ExprMachine.Expr.Literal

namespace ExprMachine

-- ============================================================================
-- Tokens without places
-- ============================================================================

/-- A token without its place. -/
structure Symbol where
  kind : TokenKind
  value : String
deriving DecidableEq, Repr

namespace Symbol

@[match_pattern] abbrev operator (value : String) : Symbol := ⟨.operator, value⟩
@[match_pattern] abbrev bracket (value : String) : Symbol := ⟨.bracket, value⟩
@[match_pattern] abbrev word (value : String) : Symbol := ⟨.identifier, value⟩
@[match_pattern] abbrev number (value : String) : Symbol := ⟨.number, value⟩
@[match_pattern] abbrev text (value : String) : Symbol := ⟨.text, value⟩

/-- The literal that one symbol makes by itself. -/
def literal? (symbol : Symbol) : Option Expr :=
  match symbol.kind with
  | .identifier =>
    if symbol.value = "true" then some (.bool true)
    else if symbol.value = "false" then some (.bool false)
    else if symbol.value = "nil" then some .nil
    else none
  | .number => (Expr.ofNumber symbol.value).toOption
  | .text => some (.text symbol.value)
  | _ => none

/-- A number makes the literal that it denotes. -/
theorem literal?_number_iff {lexeme : String} {expr : Expr} :
    (number lexeme).literal? = some expr ↔ Expr.ofNumber lexeme = .ok expr := by
  change (Expr.ofNumber lexeme).toOption = some expr ↔ _
  cases Expr.ofNumber lexeme with
  | ok literal =>
    exact ⟨fun h => congrArg Except.ok (Option.some.inj h),
      fun h => congrArg some (Except.ok.inj h)⟩
  | error cause =>
    constructor
    · intro h
      cases h
    · intro h
      cases h

/-- Whether the symbol is a number that starts with a point, which after an operand is
    a path of indexes. -/
def isIndexes (symbol : Symbol) : Bool :=
  symbol.kind == .number && symbol.value.toList.head? == some '.'

end Symbol

/-- Whether the tree is a literal of one token. -/
def Expr.isLiteral : Expr → Bool
  | .bool _ | .nil | .float _ | .int _ | .text _ => true
  | .identifier _ | .unary .. | .binary .. | .property .. | .call .. | .methodCall .. |
    .list _ => false

/-- What one symbol makes by itself is a literal. -/
theorem isLiteral_of_literal? {symbol : Symbol} {expr : Expr} (h : symbol.literal? = some expr) :
    expr.isLiteral = true := by
  obtain ⟨kind, value⟩ := symbol
  cases kind with
  | identifier =>
    simp only [Symbol.literal?] at h
    split at h
    · cases h
      rfl
    split at h
    · cases h
      rfl
    split at h
    · cases h
      rfl
    · cases h
  | number =>
    have hliteral := Symbol.literal?_number_iff.1 h
    simp only [Expr.ofNumber] at hliteral
    split at hliteral <;> split at hliteral <;> cases hliteral <;> rfl
  | text =>
    cases h
    rfl
  | _ => cases h

/-- A token without its place. -/
def Token.symbol (token : Token) : Symbol := ⟨token.kind, token.value⟩

/-- Tokens without their places. -/
def Token.symbols (tokens : List Token) : List Symbol := tokens.map Token.symbol

@[simp] theorem Token.symbols_nil : Token.symbols [] = [] := rfl

@[simp] theorem Token.symbols_cons (token : Token) (tokens : List Token) :
    Token.symbols (token :: tokens) = token.symbol :: Token.symbols tokens := rfl

theorem Token.isBracket_iff {token : Token} {bracket : String} :
    token.isBracket bracket = true ↔ token.symbol = .bracket bracket := by
  simp [Token.isBracket, Token.symbol]

theorem Token.isOperator_iff {token : Token} {symbol : String} :
    token.isOperator symbol = true ↔ token.symbol = .operator symbol := by
  simp [Token.isOperator, Token.symbol]

-- ============================================================================
-- What may still be taken
-- ============================================================================

/-- Whether the tree is a bare name, which arguments make a call. -/
def Expr.isIdentifier : Expr → Bool
  | .identifier _ => true
  | _ => false

namespace Reading

/-- Whether an argument list starts here. -/
def opensArguments (symbols : List Symbol) : Bool :=
  symbols.head? == some (.bracket "(")

/-- Whether a part of the tree on the left starts here. -/
def opensPart (left : Expr) (symbols : List Symbol) : Bool :=
  symbols.head? == some (.operator ".") || symbols.head?.any Symbol.isIndexes ||
    (opensArguments symbols && left.isIdentifier)

/-- Whether an infix operator of at least the given priority stands here. -/
def opensInfix (grammar : Grammar) (least : Nat) (symbols : List Symbol) : Bool :=
  symbols.head?.any fun symbol =>
    symbol.kind == .operator && (grammar.binary? symbol.value).any (least ≤ ·.priority)

end Reading

-- ============================================================================
-- The relation
-- ============================================================================

/-- What can be read: a form of the language together with what it spells. -/
inductive Phrase where
  /-- An expression whose infix operators have at least the given priority. -/
  | expression (least : Nat) (expr : Expr)
  /-- Such an expression that may go on with another infix operator. -/
  | chain (least : Nat) (expr : Expr)
  /-- An operand with all its parts. -/
  | operand (expr : Expr)
  /-- An operand that may go on with another part. -/
  | stem (expr : Expr)
  /-- A sequence, after its opening bracket and with its closing one. -/
  | sequence (kind : SequenceKind) (exprs : List Expr)
  /-- The same, with at least one expression. -/
  | items (kind : SequenceKind) (exprs : List Expr)

open Reading in
/-- `Reads grammar phrase symbols rest`: the phrase stands at the front of the symbols,
    and these are left after it. -/
inductive Reads (grammar : Grammar) : Phrase → List Symbol → List Symbol → Prop where
  | expression {least expr symbols rest} (chain : Reads grammar (.chain least expr) symbols rest)
      (done : opensInfix grammar least rest = false) :
      Reads grammar (.expression least expr) symbols rest
  | single {least expr symbols rest} (operand : Reads grammar (.operand expr) symbols rest) :
      Reads grammar (.chain least expr) symbols rest
  | binary {least symbol info left right symbols between rest}
      (chain : Reads grammar (.chain least left) symbols (.operator symbol :: between))
      (known : grammar.binary? symbol = some info) (binds : least ≤ info.priority)
      (expression : Reads grammar (.expression info.rightBound right) between rest) :
      Reads grammar (.chain least (.binary symbol left right)) symbols rest
  | literal {symbol expr rest} (denotes : Symbol.literal? symbol = some expr) :
      Reads grammar (.operand expr) (symbol :: rest) rest
  | operand {expr symbols rest} (stem : Reads grammar (.stem expr) symbols rest)
      (done : opensPart expr rest = false) : Reads grammar (.operand expr) symbols rest
  | unary {symbol info expr symbols rest} (known : grammar.unary? symbol = some info)
      (expression : Reads grammar (.expression info.priority expr) symbols rest) :
      Reads grammar (.stem (.unary symbol expr)) (.operator symbol :: symbols) rest
  | parentheses {expr symbols rest}
      (expression : Reads grammar (.expression 0 expr) symbols (.bracket ")" :: rest)) :
      Reads grammar (.stem expr) (.bracket "(" :: symbols) rest
  | list {items symbols rest} (sequence : Reads grammar (.sequence .items items) symbols rest) :
      Reads grammar (.stem (.list items)) (.bracket "[" :: symbols) rest
  | name {name rest} (plain : Symbol.literal? (.word name) = none) :
      Reads grammar (.stem (.identifier name)) (.word name :: rest) rest
  | call {name arguments symbols between rest}
      (stem : Reads grammar (.stem (.identifier name)) symbols (.bracket "(" :: between))
      (sequence : Reads grammar (.sequence .arguments arguments) between rest) :
      Reads grammar (.stem (.call name arguments)) symbols rest
  | property {expr name symbols rest}
      (stem : Reads grammar (.stem expr) symbols (.operator "." :: .word name :: rest))
      (done : opensArguments rest = false) :
      Reads grammar (.stem (.property expr name)) symbols rest
  | method {expr name arguments symbols between rest}
      (stem : Reads grammar (.stem expr) symbols
        (.operator "." :: .word name :: .bracket "(" :: between))
      (sequence : Reads grammar (.sequence .arguments arguments) between rest) :
      Reads grammar (.stem (.methodCall expr name arguments)) symbols rest
  | indexes {expr value path symbols rest}
      (stem : Reads grammar (.stem expr) symbols (.number value :: rest))
      (point : (Symbol.number value).isIndexes = true)
      (denotes : Expr.indexPath value = some path) :
      Reads grammar (.stem (path.foldl .property expr)) symbols rest
  | empty {kind rest} : Reads grammar (.sequence kind []) (.bracket kind.close :: rest) rest
  | sequence {kind exprs symbols rest} (items : Reads grammar (.items kind exprs) symbols rest) :
      Reads grammar (.sequence kind exprs) symbols rest
  | last {kind expr symbols rest} (plain : symbols.head? ≠ some (.operator ","))
      (expression :
        Reads grammar (.expression 0 expr) symbols (.bracket kind.close :: rest)) :
      Reads grammar (.items kind [expr]) symbols rest
  | item {kind expr exprs symbols between rest} (plain : symbols.head? ≠ some (.operator ","))
      (expression : Reads grammar (.expression 0 expr) symbols (.operator "," :: between))
      (items : Reads grammar (.items kind exprs) between rest) :
      Reads grammar (.items kind (expr :: exprs)) symbols rest

-- ============================================================================
-- First symbols
-- ============================================================================

/-- Whether the phrase starts with an operand. -/
def Phrase.startsOperand : Phrase → Bool
  | .sequence .. => false
  | _ => true

/-- An operand starts neither with a closing bracket nor with an operator that is none
    before an operand. -/
theorem Reads.exists_first {grammar : Grammar} {phrase : Phrase} {symbols rest : List Symbol}
    (h : Reads grammar phrase symbols rest) (starts : phrase.startsOperand = true) :
    ∃ first more, symbols = first :: more ∧
      (∀ kind : SequenceKind, first ≠ .bracket kind.close) ∧
        ∀ symbol, first = .operator symbol → (grammar.unary? symbol).isSome = true := by
  induction h with
  | expression _ _ ih => exact ih rfl
  | single _ ih => exact ih rfl
  | binary _ _ _ _ ih => exact ih rfl
  | @literal symbol expr rest denotes =>
    refine ⟨symbol, rest, rfl, fun kind hsymbol => ?_, fun operator hsymbol => ?_⟩ <;>
    · rw [hsymbol] at denotes
      simp [Symbol.literal?] at denotes
  | operand _ _ ih => exact ih rfl
  | unary known => exact ⟨_, _, rfl, by simp, by rintro symbol ⟨⟩; simp [known]⟩
  | parentheses =>
    exact ⟨_, _, rfl, fun kind => by cases kind <;> simp [SequenceKind.close], by simp⟩
  | list => exact ⟨_, _, rfl, fun kind => by cases kind <;> simp [SequenceKind.close], by simp⟩
  | name => exact ⟨_, _, rfl, by simp, by simp⟩
  | call _ _ ih => exact ih rfl
  | property _ _ ih => exact ih rfl
  | method _ _ ih => exact ih rfl
  | indexes _ _ _ ih => exact ih rfl
  | empty => cases starts
  | sequence => cases starts
  | last _ _ ih => exact ih rfl
  | item _ _ _ ih => exact ih rfl

end ExprMachine
