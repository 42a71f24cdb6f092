/-
  ExprMachine.Proofs.Expr.Accepted

  What a reader of the parser has done where it gives something: one rule for each way to
  get there, with the readers it called and what these gave. What holds of all that is
  accepted is proved from these rules, without the code of the readers.
-/
import ExprMachine.Expr.Parser
import ExprMachine.Proofs.Expr.Reading

namespace ExprMachine.Parser

open Token

variable {setting : Setting} {operand : Reader} {tokens : List Token}

-- ============================================================================
-- The limit
-- ============================================================================

theorem limited_ok {place : Position} {parsed result : Parsed tokens}
    (h : limited tokens place parsed = .ok result) :
    result = parsed ∧ parsed.depth ≤ maxDepth := by
  unfold limited at h
  split at h
  · cases h
  · cases h
    exact ⟨rfl, by omega⟩

theorem limited_map_ok {place : Position} {parsed larger : Parsed tokens}
    (h : (limited tokens place parsed).map some = .ok (some larger)) :
    larger = parsed ∧ parsed.depth ≤ maxDepth := by
  cases hlimited : limited tokens place parsed with
  | error error =>
    rw [hlimited] at h
    cases h
  | ok result =>
    rw [hlimited] at h
    cases h
    exact limited_ok hlimited

-- ============================================================================
-- Sequences
-- ============================================================================

/-- A sequence closes at once, or its expressions are read. -/
theorem sequence_cases {kind : SequenceKind} {opened : Position} {parsed : ParsedSequence tokens}
    (h : sequence setting operand kind opened tokens = .ok parsed) :
    (∃ token, tokens = token :: parsed.rest ∧ token.symbol = .bracket kind.close ∧
      parsed.exprs = [] ∧ parsed.depth = 0) ∨
    sequenceFrom setting operand kind opened #[] 0 tokens (Nat.le_refl _) = .ok parsed := by
  unfold sequence at h
  split at h
  · exact .inr h
  rename_i token after
  split at h
  · rename_i closes
    cases h
    exact .inl ⟨token, rfl, Token.isBracket_iff.1 closes, rfl, rfl⟩
  · exact .inr h

/-- Arguments are a sequence that a parenthesis has opened. -/
inductive Arguments (setting : Setting) (operand : Reader) :
    (tokens : List Token) → ParsedSequence tokens → Prop where
  | sequence {token after} {found : ParsedSequence after} (opens : token.symbol = .bracket "(")
      (read : sequence setting operand .arguments token.position after = .ok found) :
      Arguments setting operand (token :: after) (found.within (Nat.le_succ _))

theorem arguments_accepted {parsed : ParsedSequence tokens}
    (h : arguments? setting operand tokens = .ok (some parsed)) :
    Arguments setting operand tokens parsed := by
  unfold arguments? at h
  split at h
  · cases h
  rename_i token after
  split at h
  · rename_i opens
    cases read : sequence setting operand .arguments token.position after with
    | error error =>
      rw [read] at h
      cases h
    | ok found =>
      rw [read] at h
      cases h
      exact .sequence (Token.isBracket_iff.1 opens) read
  · cases h

-- ============================================================================
-- Pieces of trees
-- ============================================================================

/-- `Part setting operand left depth tokens expr depth' rest`: the tree on the left, of the
    first depth, has taken a part and is now this one, of the second depth. -/
inductive Part (setting : Setting) (operand : Reader) :
    Expr → Nat → List Token → Expr → Nat → List Token → Prop where
  | method {left depth point name after} {arguments : ParsedSequence after}
      (isPoint : point.symbol = .operator ".") (isName : name.symbol = .word name.value)
      (found : arguments? setting operand after = .ok (some arguments)) :
      Part setting operand left depth (point :: name :: after)
        (.methodCall left name.value arguments.exprs) (max depth arguments.depth + 1)
        arguments.rest
  | property {left depth point name after} (isPoint : point.symbol = .operator ".")
      (isName : name.symbol = .word name.value)
      (noArguments : arguments? setting operand after = .ok none) :
      Part setting operand left depth (point :: name :: after) (.property left name.value)
        (depth + 1) after
  | indexes {left depth token rest path} (isNumber : token.symbol = .number token.value)
      (point : token.symbol.isIndexes = true) (denotes : Expr.indexPath token.value = some path) :
      Part setting operand left depth (token :: rest) (path.foldl .property left)
        (depth + path.length) rest
  | call {name depth tokens} {arguments : ParsedSequence tokens}
      (found : arguments? setting operand tokens = .ok (some arguments)) :
      Part setting operand (.identifier name) depth tokens (.call name arguments.exprs)
        (arguments.depth + 1) arguments.rest

theorem part_accepted {left : Expr} {depth : Nat} {larger : Parsed tokens}
    (h : part? setting operand left depth tokens = .ok (some larger)) :
    Part setting operand left depth tokens larger.expr larger.depth larger.rest ∧
      larger.depth ≤ maxDepth := by
  unfold part? at h
  split at h
  · cases h
  rename_i token rest
  split at h
  · rename_i point
    have isPoint := Token.isOperator_iff.1 point
    split at h
    · cases h
    rename_i name after
    split at h
    · rename_i kind
      have isName : name.symbol = .word name.value := by rw [Token.symbol, kind]
      split at h
      · cases h
      · rename_i arguments found
        obtain ⟨rfl, within⟩ := limited_map_ok h
        exact ⟨.method isPoint isName found, within⟩
      · rename_i noArguments
        obtain ⟨rfl, within⟩ := limited_map_ok h
        exact ⟨.property isPoint isName noArguments, within⟩
    · cases h
  split at h
  · rename_i number
    have isNumber : token.symbol = .number token.value := by rw [Token.symbol, number.1]
    split at h
    · cases h
    · rename_i path denotes
      obtain ⟨rfl, within⟩ := limited_map_ok h
      exact ⟨.indexes isNumber (by simp [isNumber, Symbol.isIndexes, number.2]) denotes, within⟩
  · split at h
    · split at h
      · cases h
      · rename_i arguments found
        obtain ⟨rfl, within⟩ := limited_map_ok h
        exact ⟨.call found, within⟩
      · cases h
    · cases h

/-- `InfixOperand setting operand least left depth tokens expr depth' rest`: the same for an
    infix operator and its right operand. -/
inductive InfixOperand (setting : Setting) (operand : Reader) (least : Nat) (left : Expr)
    (depth : Nat) : List Token → Expr → Nat → List Token → Prop where
  | binary {token rest info} {right : Parsed rest}
      (isOperator : token.symbol = .operator token.value)
      (known : setting.grammar.binary? token.value = some info) (binds : least ≤ info.priority)
      (read : operand info.rightBound rest = .ok right) :
      InfixOperand setting operand least left depth (token :: rest)
        (.binary token.value left right.expr) (max depth right.depth + 1) right.rest

theorem infixOperand_accepted {least : Nat} {left : Expr} {depth : Nat} {larger : Parsed tokens}
    (h : infixOperand? setting operand least left depth tokens = .ok (some larger)) :
    InfixOperand setting operand least left depth tokens larger.expr larger.depth larger.rest ∧
      larger.depth ≤ maxDepth := by
  unfold infixOperand? at h
  split at h
  · cases h
  rename_i token rest
  split at h
  · rename_i operator
    have isOperator : token.symbol = .operator token.value := by rw [Token.symbol, operator]
    split at h
    · cases h
    rename_i info known
    split at h
    · cases h
    rename_i binds
    split at h
    · cases h
    rename_i right read
    obtain ⟨rfl, within⟩ := limited_map_ok h
    exact ⟨.binary isOperator known (by omega) read, within⟩
  · cases h

-- ============================================================================
-- Operands
-- ============================================================================

/-- `Stem setting operand tokens expr depth rest`: an operand that parts may follow has been
    read. What stands in parentheses keeps its depth, and all else meets the limit. -/
inductive Stem (setting : Setting) (operand : Reader) :
    List Token → Expr → Nat → List Token → Prop where
  | unary {token rest info} {inner : Parsed rest}
      (isOperator : token.symbol = .operator token.value)
      (known : setting.grammar.unary? token.value = some info)
      (read : operand info.priority rest = .ok inner) (within : inner.depth + 1 ≤ maxDepth) :
      Stem setting operand (token :: rest) (.unary token.value inner.expr) (inner.depth + 1)
        inner.rest
  | parentheses {opened rest token after} {inner : Parsed rest}
      (opens : opened.symbol = .bracket "(") (read : operand 0 rest = .ok inner)
      (behind : inner.rest = token :: after) (closes : token.symbol = .bracket ")") :
      Stem setting operand (opened :: rest) inner.expr inner.depth after
  | list {token rest} {items : ParsedSequence rest} (opens : token.symbol = .bracket "[")
      (read : sequence setting operand .items token.position rest = .ok items)
      (within : items.depth + 1 ≤ maxDepth) :
      Stem setting operand (token :: rest) (.list items.exprs) (items.depth + 1) items.rest
  | call {word rest} {arguments : ParsedSequence rest} (isWord : word.symbol = .word word.value)
      (plain : (Symbol.word word.value).literal? = none)
      (found : arguments? setting operand rest = .ok (some arguments))
      (within : arguments.depth + 1 ≤ maxDepth) :
      Stem setting operand (word :: rest) (.call word.value arguments.exprs)
        (arguments.depth + 1) arguments.rest
  | name {word rest} (isWord : word.symbol = .word word.value)
      (plain : (Symbol.word word.value).literal? = none) :
      Stem setting operand (word :: rest) (.identifier word.value) 1 rest

/-- An operand is a literal of one token, or an operand with all the parts after it. -/
inductive Operand (setting : Setting) (operand : Reader) :
    (tokens : List Token) → Parsed tokens → Prop where
  | literal {token rest} {parsed : Parsed (token :: rest)}
      (denotes : token.symbol.literal? = some parsed.expr) (depth_eq : parsed.depth = 1)
      (rest_eq : parsed.rest = rest) : Operand setting operand (token :: rest) parsed
  | parts {tokens : List Token} {stem parsed : Parsed tokens}
      (read : Stem setting operand tokens stem.expr stem.depth stem.rest)
      (grown : withParts setting operand stem = .ok parsed) :
      Operand setting operand tokens parsed

theorem wordOperand_accepted {word : Token} {parsed : Parsed (word :: tokens)}
    (isWord : word.symbol = .word word.value)
    (h : wordOperand setting operand word tokens = .ok parsed) :
    Operand setting operand (word :: tokens) parsed := by
  unfold wordOperand at h
  split at h
  · rename_i isTrue
    cases h
    exact .literal (by simp [isWord, Symbol.literal?, isTrue]) rfl rfl
  split at h
  · rename_i isFalse
    cases h
    exact .literal (by simp [isWord, Symbol.literal?, isFalse]) rfl rfl
  split at h
  · rename_i isNil
    cases h
    exact .literal (by simp [isWord, Symbol.literal?, isNil]) rfl rfl
  rename_i notTrue notFalse notNil
  have plain : (Symbol.word word.value).literal? = none := by
    simp [Symbol.literal?, notTrue, notFalse, notNil]
  split at h
  · cases h
  · rename_i arguments found
    split at h
    · cases h
    rename_i call hcall
    obtain ⟨rfl, within⟩ := limited_ok hcall
    exact .parts (.call isWord plain found within) h
  · exact .parts (.name isWord plain) h

theorem parenthesised_accepted {opened : Token} {parsed : Parsed (opened :: tokens)}
    (opens : opened.symbol = .bracket "(")
    (h : parenthesised setting operand opened tokens = .ok parsed) :
    Operand setting operand (opened :: tokens) parsed := by
  unfold parenthesised at h
  split at h
  · cases h
  rename_i inner read
  split at h
  · cases h
  rename_i token after behind
  split at h
  · rename_i closes
    exact .parts (.parentheses opens read behind (Token.isBracket_iff.1 closes)) h
  · cases h

theorem primary_accepted {parsed : Parsed tokens}
    (h : primary setting operand tokens = .ok parsed) :
    Operand setting operand tokens parsed := by
  unfold primary at h
  split at h
  · cases h
  rename_i token rest
  split at h
  · rename_i kind
    have isOperator : token.symbol = .operator token.value := by rw [Token.symbol, kind]
    split at h
    · cases h
    rename_i info known
    split at h
    · cases h
    rename_i inner read
    split at h
    · cases h
    rename_i whole hwhole
    obtain ⟨rfl, within⟩ := limited_ok hwhole
    exact .parts (.unary isOperator known read within) h
  · rename_i kind
    have isBracket {bracket : String} (h : token.value = bracket) :
        token.symbol = .bracket bracket := by rw [Token.symbol, kind, h]
    split at h
    · exact parenthesised_accepted (isBracket ‹_›) h
    split at h
    · rename_i opens
      split at h
      · cases h
      rename_i items read
      split at h
      · cases h
      rename_i whole hwhole
      obtain ⟨rfl, within⟩ := limited_ok hwhole
      exact .parts (.list (isBracket opens) read within) h
    · cases h
  · rename_i kind
    exact wordOperand_accepted (by rw [Token.symbol, kind]) h
  · rename_i kind
    split at h
    · cases h
    rename_i literal denotes
    cases h
    have isNumber : token.symbol = .number token.value := by rw [Token.symbol, kind]
    exact .literal (by rw [isNumber, Symbol.literal?_number_iff, denotes]) rfl rfl
  · rename_i kind
    cases h
    exact .literal (by simp [Token.symbol, kind, Symbol.literal?]) rfl rfl
  · cases h

-- ============================================================================
-- Expressions
-- ============================================================================

/-- An operand has taken the infix operators after it. -/
theorem expression_accepted {levels least : Nat} {parsed : Parsed tokens}
    (h : expression setting (levels + 1) least tokens = .ok parsed) :
    ∃ left, primary setting (expression setting levels) tokens = .ok left ∧
      growFrom (infixOperand? setting (expression setting levels) least) left = .ok parsed := by
  unfold expression at h
  split at h
  · cases h
  · rename_i left read
    exact ⟨left, read, h⟩

end ExprMachine.Parser
