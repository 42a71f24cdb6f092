/-
  ExprMachine.Expr.Cursor

  Reading with a cursor. An index walks along the whole list of tokens, marks of the end
  and all, and a counter keeps the number of open calls. To look outside the list, to cut
  outside a text and to count past the end of a type are outcomes of their own, and what
  happens on the way is written down. Nothing is said about when loops and calls end: what
  goes on for ever leaves nothing, with any fuel.
-/
import ExprMachine.Expr.Parser
import ExprMachine.Text.Bytes

namespace ExprMachine.Cursor

/-! ## Runs -/

/-- What breaks a run off without an answer. -/
inductive Fault where
  /-- There is no token at this place. -/
  | outsideTokens (place : Nat)
  /-- No character of the text starts after so many bytes. -/
  | outsideText (bytes : Nat) (text : List Char)
  /-- A number leaves its type. -/
  | overflow
deriving DecidableEq, Repr

/-- Why a run stops before it has a result. -/
inductive Stop where
  /-- The tokens are no expression. -/
  | refused (error : ParseError)
  /-- The run breaks off. -/
  | faulted (fault : Fault)
deriving DecidableEq, Repr

/-- What happens on the way. -/
inductive Event where
  /-- The token at this place is looked at. -/
  | looked (place : Nat)
  /-- The cursor comes to this place. -/
  | moved (place : Nat)
  /-- So many calls are open now. -/
  | counted (calls : Nat)
  /-- A text is cut after so many bytes. -/
  | cut (bytes : Nat) (text : List Char)
  /-- A loop has gone through a round, from one place to another. When it finds nothing to
      do and is left, that is no round. -/
  | round (start stop : Nat)
deriving DecidableEq, Repr

/-- The place of the cursor, the number of open calls, and what has happened, the latest
    first. -/
structure State where
  place : Nat
  nesting : Nat
  events : List Event
deriving DecidableEq, Repr

/-- What runs from a state to a result, or stops before it, and leaves a state in both
    cases. A run whose fuel does not suffice leaves nothing. -/
abbrev Run := ExceptT Stop (StateT State Option)

/-- Tokens that a mark of the end ends, and the operators to read them by. -/
structure Input where
  grammar : Grammar
  tokens : List Token

/-- Adds a mark of the end where none ends the tokens, at the place of the last one. -/
def marked (tokens : List Token) : List Token :=
  if tokens.getLast?.any Token.isEnd then tokens
  else tokens ++ [⟨.endOfInput, (tokens.getLast?.map Token.position).getD .start, ""⟩]

/-! ## Steps -/

/-- The greatest number of open calls, or of levels of a tree, that can be counted. -/
def greatest : Nat := 2 ^ 64 - 1

/-- Refuses the tokens. -/
def refuse {α : Type} (place : Position) (cause : ParseCause) : Run α :=
  throw (.refused ⟨place, cause⟩)

/-- Writes down what happens. -/
def record (event : Event) : Run Unit :=
  modify fun state => { state with events := event :: state.events }

/-- Looks at the token under the cursor. -/
def look (input : Input) : Run Token := do
  let place := (← get).place
  record (.looked place)
  match input.tokens[place]? with
  | some token => pure token
  | none => throw (.faulted (.outsideTokens place))

/-- Moves on by one token, but not from a mark of the end. -/
def advance (input : Input) : Run Unit := do
  let token ← look input
  if token.isEnd then pure ()
  else
    let place := (← get).place + 1
    modify fun state => { state with place }
    record (.moved place)

/-- What follows so many bytes of a text. -/
def behind (bytes : Nat) (text : List Char) : Run (List Char) := do
  record (.cut bytes text)
  match Text.cut? bytes text with
  | some (_, rest) => pure rest
  | none => throw (.faulted (.outsideText bytes text))

/-- One more than a number of a type that has this greatest number. -/
def oneMore (top number : Nat) : Run Nat :=
  if number < top then pure (number + 1) else throw (.faulted .overflow)

/-- One level more than so many, for a tree that starts at this place. -/
def deeper (depth : Nat) (place : Position) : Run Nat := do
  let depth ← oneMore greatest depth
  if maxDepth < depth then refuse place .nestedTooDeeply else pure depth

/-- Lets so many calls be open. -/
def count (nesting : Nat) : Run Unit := do
  modify fun state => { state with nesting }
  record (.counted nesting)

/-- Opens a call. -/
def openCall : Run Unit := do
  count (← oneMore greatest (← get).nesting)

/-- Closes a call. -/
def closeCall : Run Unit := do
  match (← get).nesting with
  | 0 => throw (.faulted .overflow)
  | nesting + 1 => count nesting

/-- Ends a round that was started at this place. -/
def endRound (start : Nat) : Run Unit := do
  record (.round start (← get).place)

/-! ## Numbers and indexes -/

/-- The base of a number, and its digits after the letter that announces it. -/
def splitBase (text : List Char) : Run (Nat × List Char) := do
  match (Text.cut? 2 text).map Prod.fst with
  | some ['0', mark] =>
    if mark = 'x' ∨ mark = 'X' then pure (16, ← behind 2 text)
    else if mark = 'o' ∨ mark = 'O' then pure (8, ← behind 2 text)
    else if mark = 'b' ∨ mark = 'B' then pure (2, ← behind 2 text)
    else pure (10, text)
  | _ => pure (10, text)

/-- The literal that a number token denotes. -/
def number (token : Token) : Run Expr := do
  let (base, digits) ← splitBase (Expr.withoutSeparators token.value.toList)
  if digits.contains '.' then
    match if base = 10 then Decimal.readFloat? digits else Decimal.readFraction? base digits with
    | some value => pure (.float value.toBits)
    | none => refuse token.position (.invalidFloat token.value)
  else
    match (Text.readSigned? base digits).filter Expr.fitsInt64 with
    | some number => pure (.int (.ofInt number))
    | none => refuse token.position (.integerOutOfRange token.value)

/-- The indexes that a number token with a point at its start denotes. -/
def indexPath (token : Token) : Run (List String) := do
  let digits ← behind 1 token.value.toList
  match (digits.splitOn '.').mapM Expr.ofIndex with
  | some indexes => pure indexes
  | none => refuse token.position (.expectedIndex token.value)

/-- Takes one index after the other of a tree of some depth. -/
def indexed (place : Position) (left : Expr) (depth : Nat) : List String → Run (Expr × Nat)
  | [] => pure (left, depth)
  | index :: indexes => do
    indexed place (.property left index) (← deeper depth place) indexes

/-! ## Expressions -/

/-- The least priority that the right operand of an infix operator may have. -/
def rightBound (info : OperatorInfo) : Run Nat :=
  match info.associativity with
  | .left => oneMore Grammar.topPriority info.priority
  | .right => pure info.priority

/-- Passes the parenthesis that closes the one opened at this place. -/
def close (input : Input) (opened : Position) : Run Unit := do
  let token ← look input
  if token.isBracket ")" then advance input
  else if token.isEnd then refuse opened .unclosedParenthesis
  else refuse token.position (.expectedClose ")" token.description)

/-- The readers that call each other, with what they are called on. -/
inductive Call where
  /-- An expression whose infix operators have at least the given priority. -/
  | expression (least : Nat)
  /-- One operand. -/
  | primary
  /-- The loop that lets a tree take the infix operators after it. -/
  | infixes (least : Nat) (left : Expr) (depth : Nat)
  /-- An infix operator of at least the given priority and its right operand, if such an
      operator comes next. -/
  | infixOperand (least : Nat) (left : Expr) (depth : Nat)
  /-- The loop that lets an operand take the parts after it. -/
  | parts (left : Expr) (depth : Nat)
  /-- A name after a point and the arguments of a method, indexes after points, or the
      arguments of a bare name, if one of these comes next. -/
  | part (left : Expr) (depth : Nat)
  /-- Arguments in parentheses, if a parenthesis opens here. -/
  | arguments
  /-- A sequence whose opening bracket has been passed. -/
  | sequence (kind : SequenceKind) (opened : Position)
  /-- The loop over the expressions of a sequence, after those found before. -/
  | items (kind : SequenceKind) (opened : Position) (found : Array Expr) (depth : Nat)
  /-- What that loop does after an expression, in a round that was started at this place. -/
  | afterItem (kind : SequenceKind) (opened : Position) (start : Nat) (found : Array Expr)
    (depth : Nat)

/-- What a reader gives: what was read, and its depth beside it. -/
abbrev Call.Result : Call → Type
  | .expression _ | .primary | .infixes .. | .parts .. => Expr × Nat
  | .infixOperand .. | .part .. => Option (Expr × Nat)
  | .arguments => Option (List Expr × Nat)
  | .sequence .. | .items .. | .afterItem .. => List Expr × Nat

/-- What the readers do, where they call each other through the given one. -/
def body (input : Input) (read : (call : Call) → Run call.Result) : (call : Call) → Run call.Result
  | .expression least => do
    if maxDepth ≤ (← get).nesting then
      let token ← look input
      refuse token.position .nestedTooDeeply
    else
      openCall
      let (left, depth) ← read .primary
      let tree ← read (.infixes least left depth)
      closeCall
      pure tree
  | .primary => do
    let token ← look input
    match token.kind with
    | .operator =>
      match input.grammar.unary? token.value with
      | none => throw (.refused (Parser.unexpected token))
      | some info =>
        advance input
        let (operand, depth) ← read (.expression info.priority)
        read (.parts (.unary token.value operand) (← deeper depth token.position))
    | .bracket =>
      if token.value = "(" then
        advance input
        let (inner, depth) ← read (.expression 0)
        close input token.position
        read (.parts inner depth)
      else if token.value = "[" then
        advance input
        let (items, depth) ← read (.sequence .items token.position)
        read (.parts (.list items) (← deeper depth token.position))
      else throw (.refused (Parser.unexpected token))
    | .identifier =>
      advance input
      if token.value = "true" then pure (.bool true, 1)
      else if token.value = "false" then pure (.bool false, 1)
      else if token.value = "nil" then pure (.nil, 1)
      else
        match ← read .arguments with
        | some (arguments, depth) =>
          read (.parts (.call token.value arguments) (← deeper depth token.position))
        | none => read (.parts (.identifier token.value) 1)
    | .number =>
      advance input
      pure (← number token, 1)
    | .text =>
      advance input
      pure (.text token.value, 1)
    | .endOfInput => throw (.refused (Parser.unexpected token))
  | .infixes least left depth => do
    let start := (← get).place
    match ← read (.infixOperand least left depth) with
    | none => pure (left, depth)
    | some (larger, depth) =>
      endRound start
      read (.infixes least larger depth)
  | .infixOperand least left depth => do
    let token ← look input
    if token.kind = .operator then
      match input.grammar.binary? token.value with
      | none => pure none
      | some info =>
        if info.priority < least then pure none
        else
          advance input
          let (right, rightDepth) ← read (.expression (← rightBound info))
          pure (some (.binary token.value left right,
            ← deeper (max depth rightDepth) token.position))
    else pure none
  | .parts left depth => do
    let start := (← get).place
    match ← read (.part left depth) with
    | none => pure (left, depth)
    | some (larger, depth) =>
      endRound start
      read (.parts larger depth)
  | .part left depth => do
    let token ← look input
    if token.isOperator "." then
      advance input
      let name ← look input
      if name.kind = .identifier then
        advance input
        match ← read .arguments with
        | some (arguments, argumentsDepth) =>
          pure (some (.methodCall left name.value arguments,
            ← deeper (max depth argumentsDepth) token.position))
        | none => pure (some (.property left name.value, ← deeper depth token.position))
      else refuse name.position (.expectedName name.description)
    else if token.kind = .number ∧ token.value.toList.head? = some '.' then
      let tree ← indexed token.position left depth (← indexPath token)
      advance input
      pure (some tree)
    else if token.isBracket "(" then
      match left with
      | .identifier name =>
        advance input
        let (arguments, depth) ← read (.sequence .arguments token.position)
        pure (some (.call name arguments, ← deeper depth token.position))
      | _ => pure none
    else pure none
  | .arguments => do
    if (← look input).isBracket "(" then
      let opened ← look input
      advance input
      let arguments ← read (.sequence .arguments opened.position)
      pure (some arguments)
    else pure none
  | .sequence kind opened => do
    if (← look input).isBracket kind.close then
      advance input
      pure ([], 0)
    else read (.items kind opened #[] 0)
  | .items kind opened found depth => do
    let start := (← get).place
    let token ← look input
    if token.isOperator "," then refuse token.position (.strayComma kind)
    else
      let (item, itemDepth) ← read (.expression 0)
      read (.afterItem kind opened start (found.push item) (max depth itemDepth))
  | .afterItem kind opened start found depth => do
    let token ← look input
    if token.isBracket kind.close then
      advance input
      endRound start
      pure (found.toList, depth)
    else if token.isOperator "," then
      advance input
      let next ← look input
      if next.isBracket kind.close then refuse next.position (.trailingComma kind)
      else
        endRound start
        read (.items kind opened found depth)
    else if token.isEnd then refuse opened (.unclosedSequence kind)
    else refuse token.position (.expectedComma kind token.description)

/-- What the readers do, with fuel for so many calls inside each other, where the next round
    of a loop is a call in the last one. -/
def reader (input : Input) : Nat → (call : Call) → Run call.Result
  | 0, _ => fun _ => none
  | fuel + 1, call => body input (reader input fuel) call

/-- Reads an expression up to a mark of the end. -/
def whole (input : Input) (fuel : Nat) : Run Expr := do
  let (tree, _) ← reader input fuel (.expression 0)
  let token ← look input
  if token.isEnd then pure tree
  else refuse token.position (.unexpectedToken token.description)

/-- Reads tokens from their start on. -/
def parse (grammar : Grammar) (tokens : List Token) (fuel : Nat) :
    Option (Except Stop Expr × State) :=
  (whole ⟨grammar, marked tokens⟩ fuel).run.run ⟨0, 0, []⟩

end ExprMachine.Cursor
