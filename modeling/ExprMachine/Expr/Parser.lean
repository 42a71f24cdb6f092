/-
  ExprMachine.Expr.Parser

  From tokens to an expression, by precedence climbing. Every reader takes the
  tokens that are left and gives back a tree, the depth of the tree and the tokens
  after it, which are fewer. Readers of operands are passed in as arguments; the
  knot is tied by `expression`, which recurses on the levels that may still nest.
-/
import ExprMachine.Expr.Grammar
import ExprMachine.Expr.Literal

namespace ExprMachine.Parser

/-! ## Results -/

/-- A tree read off the front of a list of tokens. -/
structure Parsed (tokens : List Token) where
  expr : Expr
  depth : Nat
  rest : List Token
  rest_lt : rest.length < tokens.length

/-- A sequence of trees, with the depth of the deepest, read off the front of a list
    of tokens. -/
structure ParsedSequence (tokens : List Token) where
  exprs : List Expr
  depth : Nat
  rest : List Token
  rest_lt : rest.length < tokens.length

/-- Reads an expression whose infix operators have at least the given priority. -/
abbrev Reader := (least : Nat) → (tokens : List Token) → Except ParseError (Parsed tokens)

/-- What stays the same while one list of tokens is read. -/
structure Setting where
  grammar : Grammar
  endPosition : Position

/-- The token at the front, or the mark of the end. -/
def Setting.current (setting : Setting) : List Token → Token
  | token :: _ => token
  | [] => ⟨.endOfInput, setting.endPosition, ""⟩

/-- The same tree, read off a longer list. -/
def Parsed.within {tokens all : List Token} (parsed : Parsed tokens)
    (h : tokens.length ≤ all.length) : Parsed all :=
  ⟨parsed.expr, parsed.depth, parsed.rest, Nat.lt_of_lt_of_le parsed.rest_lt h⟩

/-- The same trees, read off a longer list. -/
def ParsedSequence.within {tokens all : List Token} (parsed : ParsedSequence tokens)
    (h : tokens.length ≤ all.length) : ParsedSequence all :=
  ⟨parsed.exprs, parsed.depth, parsed.rest, Nat.lt_of_lt_of_le parsed.rest_lt h⟩

/-! ## Errors -/

/-- The error for a token that cannot start an operand. -/
def unexpected (token : Token) : ParseError :=
  if token.isEnd then ⟨token.position, .unexpectedEnd⟩
  else ⟨token.position, .unexpectedToken token.description⟩

/-- Gives the tree, unless it is deeper than the limit. -/
def limited (tokens : List Token) (place : Position) (parsed : Parsed tokens) :
    Except ParseError (Parsed tokens) :=
  if maxDepth < parsed.depth then .error ⟨place, .nestedTooDeeply⟩ else .ok parsed

/-! ## Sequences -/

/-- Reads the expressions of a sequence from the start of one of them, after those
    found before, up to and with the closing bracket. -/
def sequenceFrom (setting : Setting) (operand : Reader) (kind : SequenceKind)
    (opened : Position) {all : List Token} (found : Array Expr) (depth : Nat)
    (tokens : List Token) (inside : tokens.length ≤ all.length) :
    Except ParseError (ParsedSequence all) :=
  if (setting.current tokens).isOperator "," then
    .error ⟨(setting.current tokens).position, .strayComma kind⟩
  else
    match operand 0 tokens with
    | .error error => .error error
    | .ok item =>
      match _hr : item.rest with
      | [] => .error ⟨opened, .unclosedSequence kind⟩
      | token :: after =>
        have after_lt : after.length + 1 < tokens.length := by
          simpa [_hr] using item.rest_lt
        if token.isBracket kind.close then
          .ok ⟨(found.push item.expr).toList, max depth item.depth, after, by omega⟩
        else if token.isOperator "," then
          if (setting.current after).isBracket kind.close then
            .error ⟨(setting.current after).position, .trailingComma kind⟩
          else
            sequenceFrom setting operand kind opened (found.push item.expr)
              (max depth item.depth) after (by omega)
        else .error ⟨token.position, .expectedComma kind token.description⟩
termination_by tokens.length

/-- Reads a sequence whose opening bracket has been taken. -/
def sequence (setting : Setting) (operand : Reader) (kind : SequenceKind)
    (opened : Position) (tokens : List Token) : Except ParseError (ParsedSequence tokens) :=
  match tokens with
  | [] => sequenceFrom setting operand kind opened #[] 0 [] (Nat.le_refl _)
  | token :: after =>
    if token.isBracket kind.close then .ok ⟨[], 0, after, Nat.lt_succ_self _⟩
    else sequenceFrom setting operand kind opened #[] 0 (token :: after) (Nat.le_refl _)

/-- Reads arguments in parentheses, if a parenthesis opens here. -/
def arguments? (setting : Setting) (operand : Reader) (tokens : List Token) :
    Except ParseError (Option (ParsedSequence tokens)) :=
  match tokens with
  | [] => .ok none
  | token :: after =>
    if token.isBracket "(" then
      (sequence setting operand .arguments token.position after).map fun arguments =>
        some (arguments.within (Nat.le_succ _))
    else .ok none

/-! ## Growing a tree to the right -/

/-- One piece that makes a tree of some depth larger, if the tokens start with one. -/
abbrev Growth := (left : Expr) → (depth : Nat) → (tokens : List Token) →
  Except ParseError (Option (Parsed tokens))

/-- Lets a tree grow for as long as there are pieces. -/
def growFrom (growth : Growth) {all : List Token} (left : Parsed all) :
    Except ParseError (Parsed all) :=
  match growth left.expr left.depth left.rest with
  | .error error => .error error
  | .ok none => .ok left
  | .ok (some larger) => growFrom growth (larger.within (Nat.le_of_lt left.rest_lt))
termination_by left.rest.length
decreasing_by exact larger.rest_lt

/-- A part of the tree on the left: a name after a point, called as a method if
    arguments follow; indexes after points; or, if the tree is a bare name, the
    arguments of a function of that name. -/
def part? (setting : Setting) (operand : Reader) : Growth := fun left depth tokens =>
  match tokens with
  | [] => .ok none
  | token :: rest =>
    if token.isOperator "." then
      match rest with
      | [] => .error ⟨setting.endPosition, .expectedName (setting.current []).description⟩
      | name :: after =>
        if name.kind = .identifier then
          match arguments? setting operand after with
          | .error error => .error error
          | .ok (some arguments) =>
            (limited (token :: name :: after) token.position
              ⟨.methodCall left name.value arguments.exprs, max depth arguments.depth + 1,
                arguments.rest,
                Nat.lt_succ_of_lt (Nat.lt_succ_of_lt arguments.rest_lt)⟩).map some
          | .ok none =>
            (limited (token :: name :: after) token.position
              ⟨.property left name.value, depth + 1, after,
                Nat.lt_succ_of_lt (Nat.lt_succ_self _)⟩).map some
        else .error ⟨name.position, .expectedName name.description⟩
    -- The point of an index is part of a number, as in `pair.0` or `rows.0.1`.
    else if token.kind = .number ∧ token.value.toList.head? = some '.' then
      match Expr.indexPath token.value with
      | none => .error ⟨token.position, .expectedIndex token.value⟩
      | some indexes =>
        (limited (token :: rest) token.position
          ⟨indexes.foldl .property left, depth + indexes.length, rest,
            Nat.lt_succ_self _⟩).map some
    else
      match left with
      | .identifier name =>
        match arguments? setting operand (token :: rest) with
        | .error error => .error error
        | .ok (some arguments) =>
          (limited (token :: rest) token.position
            ⟨.call name arguments.exprs, arguments.depth + 1, arguments.rest,
              arguments.rest_lt⟩).map some
        | .ok none => .ok none
      | _ => .ok none

/-- An infix operator of at least the given priority, and its right operand. -/
def infixOperand? (setting : Setting) (operand : Reader) (least : Nat) : Growth :=
  fun left depth tokens =>
  match tokens with
  | [] => .ok none
  | token :: rest =>
    if token.kind = .operator then
      match setting.grammar.binary? token.value with
      | none => .ok none
      | some info =>
        if info.priority < least then .ok none
        -- An operator that groups to the left asks for more than its own priority on
        -- its right, so that the next one of its kind is left to this loop.
        else
          match operand info.rightBound rest with
          | .error error => .error error
          | .ok right =>
            (limited (token :: rest) token.position
              ⟨.binary token.value left right.expr, max depth right.depth + 1, right.rest,
                Nat.lt_succ_of_lt right.rest_lt⟩).map some
    else .ok none

/-! ## Operands -/

/-- Lets an operand take the parts that follow it. -/
def withParts (setting : Setting) (operand : Reader) {all : List Token}
    (parsed : Parsed all) : Except ParseError (Parsed all) :=
  growFrom (part? setting operand) parsed

/-- Reads what a word starts: a literal, a call or a name. -/
def wordOperand (setting : Setting) (operand : Reader) (word : Token) (rest : List Token) :
    Except ParseError (Parsed (word :: rest)) :=
  if word.value = "true" then .ok ⟨.bool true, 1, rest, Nat.lt_succ_self _⟩
  else if word.value = "false" then .ok ⟨.bool false, 1, rest, Nat.lt_succ_self _⟩
  else if word.value = "nil" then .ok ⟨.nil, 1, rest, Nat.lt_succ_self _⟩
  else
    match arguments? setting operand rest with
    | .error error => .error error
    | .ok (some arguments) =>
      match limited (word :: rest) word.position
          ⟨.call word.value arguments.exprs, arguments.depth + 1, arguments.rest,
            Nat.lt_succ_of_lt arguments.rest_lt⟩ with
      | .error error => .error error
      | .ok call => withParts setting operand call
    | .ok none =>
      withParts setting operand ⟨.identifier word.value, 1, rest, Nat.lt_succ_self _⟩

/-- Reads an expression in parentheses, the first of which has been taken. -/
def parenthesised (setting : Setting) (operand : Reader) (opened : Token)
    (rest : List Token) : Except ParseError (Parsed (opened :: rest)) :=
  match operand 0 rest with
  | .error error => .error error
  | .ok inner =>
    match _hr : inner.rest with
    | [] => .error ⟨opened.position, .unclosedParenthesis⟩
    | token :: after =>
      if token.isBracket ")" then
        withParts setting operand ⟨inner.expr, inner.depth, after, by
          have := inner.rest_lt
          simp only [_hr, List.length_cons] at this ⊢
          omega⟩
      else .error ⟨token.position, .expectedClose ")" token.description⟩

/-- Reads one operand: a prefix operator with its own operand, an expression in
    brackets, a word or a literal. Number and text literals take no parts. -/
def primary (setting : Setting) (operand : Reader) (tokens : List Token) :
    Except ParseError (Parsed tokens) :=
  match tokens with
  | [] => .error (unexpected (setting.current []))
  | token :: rest =>
    match token.kind with
    | .operator =>
      match setting.grammar.unary? token.value with
      | none => .error (unexpected token)
      | some info =>
        match operand info.priority rest with
        | .error error => .error error
        | .ok inner =>
          match limited (token :: rest) token.position
              ⟨.unary token.value inner.expr, inner.depth + 1, inner.rest,
                Nat.lt_succ_of_lt inner.rest_lt⟩ with
          | .error error => .error error
          | .ok parsed => withParts setting operand parsed
    | .bracket =>
      if token.value = "(" then parenthesised setting operand token rest
      else if token.value = "[" then
        match sequence setting operand .items token.position rest with
        | .error error => .error error
        | .ok items =>
          match limited (token :: rest) token.position
              ⟨.list items.exprs, items.depth + 1, items.rest,
                Nat.lt_succ_of_lt items.rest_lt⟩ with
          | .error error => .error error
          | .ok list => withParts setting operand list
      else .error (unexpected token)
    | .identifier => wordOperand setting operand token rest
    | .number =>
      match Expr.ofNumber token.value with
      | .error cause => .error ⟨token.position, cause⟩
      | .ok literal => .ok ⟨literal, 1, rest, Nat.lt_succ_self _⟩
    | .text => .ok ⟨.text token.value, 1, rest, Nat.lt_succ_self _⟩
    | .endOfInput => .error (unexpected token)

/-! ## Expressions -/

/-- Reads an expression in which so many levels may nest. -/
def expression (setting : Setting) : (levels : Nat) → Reader
  | 0, _, tokens => .error ⟨(setting.current tokens).position, .nestedTooDeeply⟩
  | levels + 1, least, tokens =>
    match primary setting (expression setting levels) tokens with
    | .error error => .error error
    | .ok left => growFrom (infixOperand? setting (expression setting levels) least) left

/-- The place of the end: that of the first mark of the end, else that of the last
    token. -/
def endPosition (tokens : List Token) : Position :=
  match tokens.find? Token.isEnd with
  | some mark => mark.position
  | none => (tokens.getLast?.map Token.position).getD .start

end ExprMachine.Parser

namespace ExprMachine.Expr

/-- The expression that tokens spell. All tokens before the first mark of the end have
    to belong to it; what follows the mark is ignored. -/
def parse (grammar : Grammar) (tokens : List Token) : Except ParseError Expr :=
  let setting : Parser.Setting := ⟨grammar, Parser.endPosition tokens⟩
  match Parser.expression setting maxDepth 0 (tokens.takeWhile (!·.isEnd)) with
  | .error error => .error error
  | .ok parsed =>
    match parsed.rest with
    | [] => .ok parsed.expr
    | token :: _ => .error ⟨token.position, .unexpectedToken token.description⟩

end ExprMachine.Expr
