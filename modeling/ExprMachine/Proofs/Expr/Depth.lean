/-
  ExprMachine.Proofs.Expr.Depth

  The parser counts along: the depth that it hands on beside each tree is the depth of
  that tree, and no tree is deeper than the limit. Reading itself nests no deeper
  either: a parser that watches its open calls never has more of them than the limit.
-/
import ExprMachine.Proofs.Expr.Accepted

namespace ExprMachine

-- ============================================================================
-- Depth of trees
-- ============================================================================

namespace Expr

mutual

/-- The number of expressions on the longest way from the root to a leaf. -/
def depth : Expr → Nat
  | .unary _ operand => depth operand + 1
  | .binary _ left right => max (depth left) (depth right) + 1
  | .methodCall receiver _ arguments => max (depth receiver) (depthAll arguments) + 1
  | .call _ arguments => depthAll arguments + 1
  | .property receiver _ => depth receiver + 1
  | .list items => depthAll items + 1
  | .identifier _ | .bool _ | .nil | .float _ | .int _ | .text _ => 1

/-- The depth of the deepest of some expressions. -/
def depthAll : List Expr → Nat
  | [] => 0
  | expr :: exprs => max (depth expr) (depthAll exprs)

end

theorem depthAll_append (exprs others : List Expr) :
    depthAll (exprs ++ others) = max (depthAll exprs) (depthAll others) := by
  induction exprs with
  | nil => simp [depthAll]
  | cons expr exprs ih => simp only [List.cons_append, depthAll, ih, Nat.max_assoc]

/-- Each index of a path adds a level. -/
theorem depth_foldl_property (path : List String) (expr : Expr) :
    (path.foldl .property expr).depth = expr.depth + path.length := by
  induction path generalizing expr with
  | nil => rfl
  | cons index path ih =>
    rw [List.foldl_cons, ih, depth, List.length_cons]
    omega

/-- A literal is one level deep. -/
theorem depth_of_literal? {symbol : Symbol} {expr : Expr} (h : symbol.literal? = some expr) :
    expr.depth = 1 := by
  have literal := isLiteral_of_literal? h
  cases expr with
  | bool | nil | float | int | text => rfl
  | _ => cases literal

theorem depth_of_ofNumber {lexeme : String} {literal : Expr}
    (h : ofNumber lexeme = .ok literal) : literal.depth = 1 :=
  depth_of_literal? (Symbol.literal?_number_iff.2 h)

end Expr

-- ============================================================================
-- Measured readers
-- ============================================================================

namespace Parser

variable {setting : Setting} {operand : Reader} {growth : Growth} {tokens all : List Token}

/-- The depth beside the tree is its depth, and within the limit. -/
structure Parsed.Measured (parsed : Parsed tokens) : Prop where
  depth_eq : parsed.depth = parsed.expr.depth
  depth_le : parsed.depth ≤ maxDepth

/-- The depth beside the trees is that of the deepest, and within the limit. -/
structure ParsedSequence.Measured (parsed : ParsedSequence tokens) : Prop where
  depth_eq : parsed.depth = Expr.depthAll parsed.exprs
  depth_le : parsed.depth ≤ maxDepth

/-- Every tree that the reader gives is measured. -/
def Reader.Measured (operand : Reader) : Prop :=
  ∀ least tokens parsed, operand least tokens = .ok parsed → parsed.Measured

/-- A tree given with its depth stays measured as it grows. -/
def Growth.Measured (growth : Growth) : Prop :=
  ∀ left tokens larger, growth left left.depth tokens = .ok (some larger) → larger.Measured

theorem Parsed.Measured.leaf {parsed : Parsed tokens} (depth_eq : parsed.depth = 1)
    (leaf : parsed.expr.depth = 1) : parsed.Measured :=
  ⟨depth_eq.trans leaf.symm, by
    rw [depth_eq]
    decide⟩

theorem limited_measured {place : Position} {parsed result : Parsed tokens}
    (h : limited tokens place parsed = .ok result) (depth_eq : parsed.depth = parsed.expr.depth) :
    result.Measured := by
  obtain ⟨rfl, within⟩ := limited_ok h
  exact ⟨depth_eq, within⟩

theorem growFrom_measured (measured : growth.Measured) {left final : Parsed all}
    (start : left.Measured) (h : growFrom growth left = .ok final) : final.Measured := by
  fun_induction growFrom growth left with
  | case1 => cases h
  | case2 =>
    cases h
    exact start
  | case3 left larger grown ih =>
    rw [start.depth_eq] at grown
    have := measured _ _ _ grown
    exact ih ⟨this.depth_eq, this.depth_le⟩ h

section Measured

variable (measured : operand.Measured)
include measured

/-- What was found before counts with its own depth. -/
theorem sequenceFrom_measured {kind : SequenceKind} {opened : Position} {found : Array Expr}
    {depth : Nat} {inside : tokens.length ≤ all.length} {parsed : ParsedSequence all}
    (depth_eq : depth = Expr.depthAll found.toList) (depth_le : depth ≤ maxDepth)
    (h : sequenceFrom setting operand kind opened found depth tokens inside = .ok parsed) :
    parsed.Measured := by
  have push {least : Nat} {tokens : List Token} {found : Array Expr} {depth : Nat}
      {item : Parsed tokens} (hitem : operand least tokens = .ok item)
      (depth_eq : depth = Expr.depthAll found.toList) :
      max depth item.depth = Expr.depthAll (found.push item.expr).toList := by
    have item_eq := (measured _ _ _ hitem).depth_eq
    rw [Array.toList_push, Expr.depthAll_append, Expr.depthAll, Expr.depthAll, depth_eq, item_eq,
      Nat.max_zero]
  fun_induction sequenceFrom setting operand kind opened found depth tokens inside with
  | case4 found depth tokens inside _ item hitem =>
    cases h
    have item_le := (measured _ _ _ hitem).depth_le
    exact ⟨push hitem depth_eq, by simp only; omega⟩
  | case6 found depth tokens inside _ item hitem _ _ _ _ _ _ _ ih =>
    have item_le := (measured _ _ _ hitem).depth_le
    exact ih (push hitem depth_eq) (by omega) h
  | _ => cases h

theorem sequence_measured {kind : SequenceKind} {opened : Position}
    {parsed : ParsedSequence tokens}
    (h : sequence setting operand kind opened tokens = .ok parsed) : parsed.Measured := by
  rcases sequence_cases h with ⟨token, -, -, hexprs, hdepth⟩ | items
  · exact ⟨by rw [hdepth, hexprs, Expr.depthAll], by omega⟩
  · exact sequenceFrom_measured measured rfl (by decide) items

theorem arguments_measured {parsed : ParsedSequence tokens}
    (h : arguments? setting operand tokens = .ok (some parsed)) : parsed.Measured := by
  cases arguments_accepted h with
  | sequence opens read =>
    have found := sequence_measured measured read
    exact ⟨found.depth_eq, found.depth_le⟩

/-- Where the tree on the left comes with its depth, the larger tree does. -/
theorem Part.depth_eq {left expr : Expr} {depth depth' : Nat} {rest : List Token}
    (h : Part setting operand left depth tokens expr depth' rest) (start : depth = left.depth) :
    depth' = expr.depth := by
  cases h with
  | method _ _ found =>
    simp only [Expr.depth, start, (arguments_measured measured found).depth_eq]
  | property => simp only [Expr.depth, start]
  | indexes => rw [Expr.depth_foldl_property, start]
  | call found => simp only [Expr.depth, (arguments_measured measured found).depth_eq]

theorem part_measured : (part? setting operand).Measured := by
  intro left tokens larger h
  obtain ⟨taken, within⟩ := part_accepted h
  exact ⟨taken.depth_eq measured rfl, within⟩

theorem infixOperand_measured (least : Nat) : (infixOperand? setting operand least).Measured := by
  intro left tokens larger h
  obtain ⟨taken, within⟩ := infixOperand_accepted h
  refine ⟨?_, within⟩
  generalize larger.expr = expr, larger.depth = depth, larger.rest = rest at taken
  cases taken with
  | binary _ _ _ read => simp only [Expr.depth, (measured _ _ _ read).depth_eq]

theorem withParts_measured {left final : Parsed all} (start : left.Measured)
    (h : withParts setting operand left = .ok final) : final.Measured :=
  growFrom_measured (part_measured measured) start h

theorem Stem.depth_eq_and_depth_le {expr : Expr} {depth : Nat} {rest : List Token}
    (h : Stem setting operand tokens expr depth rest) :
    depth = expr.depth ∧ depth ≤ maxDepth := by
  cases h with
  | unary _ _ read within =>
    exact ⟨by simp only [Expr.depth, (measured _ _ _ read).depth_eq], within⟩
  | parentheses _ read =>
    have inner := measured _ _ _ read
    exact ⟨inner.depth_eq, inner.depth_le⟩
  | list _ read within =>
    exact ⟨by simp only [Expr.depth, (sequence_measured measured read).depth_eq], within⟩
  | call _ _ found within =>
    exact ⟨by simp only [Expr.depth, (arguments_measured measured found).depth_eq], within⟩
  | name => exact ⟨rfl, by decide⟩

theorem primary_measured {parsed : Parsed tokens}
    (h : primary setting operand tokens = .ok parsed) : parsed.Measured := by
  cases primary_accepted h with
  | literal denotes depth_eq => exact .leaf depth_eq (Expr.depth_of_literal? denotes)
  | parts read grown =>
    obtain ⟨depth_eq, depth_le⟩ := read.depth_eq_and_depth_le measured
    exact withParts_measured measured ⟨depth_eq, depth_le⟩ grown

end Measured

theorem expression_measured (setting : Setting) (levels : Nat) :
    (expression setting levels).Measured := by
  induction levels with
  | zero =>
    intro least tokens parsed h
    cases h
  | succ levels ih =>
    intro least tokens parsed h
    obtain ⟨left, read, grown⟩ := expression_accepted h
    exact growFrom_measured (infixOperand_measured ih least) (primary_measured ih read) grown

/-- Whatever a reader of the parser returns, given a reader of operands, is measured: the
    depth beside a tree or a sequence of trees is the depth of those trees. -/
structure Measures (setting : Setting) (operand : Reader) : Prop where
  expression : operand.Measured
  chain : ∀ least {all} (left final : Parsed all), left.Measured →
    growFrom (infixOperand? setting operand least) left = .ok final → final.Measured
  primary : ∀ tokens parsed, primary setting operand tokens = .ok parsed → parsed.Measured
  parts : ∀ {all} (left final : Parsed all), left.Measured →
    withParts setting operand left = .ok final → final.Measured
  sequence : ∀ kind opened tokens parsed,
    sequence setting operand kind opened tokens = .ok parsed → parsed.Measured

theorem Measures.of_operand {setting : Setting} {operand : Reader} (measured : operand.Measured) :
    Measures setting operand where
  expression := measured
  chain _ _ _ _ start h := growFrom_measured (infixOperand_measured measured _) start h
  primary _ _ h := primary_measured measured h
  parts _ _ start h := withParts_measured measured start h
  sequence _ _ _ _ h := sequence_measured measured h

-- ============================================================================
-- Open calls
-- ============================================================================

/-- Reading at one more level: an operand, and the operators that follow it. -/
theorem expression_succ (setting : Setting) (levels least : Nat) (tokens : List Token) :
    expression setting (levels + 1) least tokens =
      (primary setting (expression setting levels) tokens).bind
        (growFrom (infixOperand? setting (expression setting levels) least)) := by
  rw [expression]
  cases primary setting (expression setting levels) tokens <;> rfl

/-- `expression` under watch: so many of its calls are open past their check, and a call
    that would be one more than the limit sets off the alarm. -/
def watched (setting : Setting) (alarm : ParseError) (limit : Nat) :
    (levels opened : Nat) → Reader
  | 0, _, _, tokens => .error ⟨(setting.current tokens).position, .nestedTooDeeply⟩
  | levels + 1, opened, least, tokens =>
    if limit < opened + 1 then .error alarm
    else
      (primary setting (watched setting alarm limit levels (opened + 1)) tokens).bind
        (growFrom (infixOperand? setting (watched setting alarm limit levels (opened + 1)) least))

/-- Open calls and levels that may still nest add up to the same at every call, so that
    the alarm stays silent. -/
theorem watched_eq {setting : Setting} {alarm : ParseError} {limit levels opened : Nat}
    (h : opened + levels ≤ limit) :
    watched setting alarm limit levels opened = expression setting levels := by
  induction levels generalizing opened with
  | zero =>
    funext least tokens
    rfl
  | succ levels ih =>
    have silent : ¬ limit < opened + 1 := by omega
    have hinner := @ih (opened + 1) (by omega)
    funext least tokens
    rw [watched, if_neg silent, hinner, expression_succ]

end Parser

-- ============================================================================
-- Parsing
-- ============================================================================

namespace Expr

/-- The tree, if no tokens are left after it. -/
def alone {tokens : List Token} (parsed : Parser.Parsed tokens) : Except ParseError Expr :=
  parsed.rest.head?.elim (.ok parsed.expr) fun token =>
    .error ⟨token.position, .unexpectedToken token.description⟩

/-- `parse` under watch: when more than `limit` calls of `expression` would be open past
    their check at once, the alarm goes off. -/
def parseWatched (alarm : ParseError) (limit : Nat) (grammar : Grammar) (tokens : List Token) :
    Except ParseError Expr :=
  (Parser.watched ⟨grammar, Parser.endPosition tokens⟩ alarm limit maxDepth 0 0
    (tokens.takeWhile (!·.isEnd))).bind alone

theorem parse_eq_bind (grammar : Grammar) (tokens : List Token) :
    parse grammar tokens =
      (Parser.expression ⟨grammar, Parser.endPosition tokens⟩ maxDepth 0
        (tokens.takeWhile (!·.isEnd))).bind alone := by
  simp only [parse]
  cases Parser.expression ⟨grammar, Parser.endPosition tokens⟩ maxDepth 0
    (tokens.takeWhile (!·.isEnd)) with
  | error error => rfl
  | ok parsed =>
    simp only [Except.bind, alone]
    cases parsed.rest <;> rfl

theorem depth_le_of_parse {grammar : Grammar} {tokens : List Token} {tree : Expr}
    (h : parse grammar tokens = .ok tree) : tree.depth ≤ maxDepth := by
  simp only [parse] at h
  split at h
  · cases h
  rename_i parsed hparsed
  have measured := Parser.expression_measured _ _ _ _ _ hparsed
  split at h
  · cases h
    rw [← measured.depth_eq]
    exact measured.depth_le
  · cases h

theorem parseWatched_eq {alarm : ParseError} {limit : Nat} {grammar : Grammar}
    {tokens : List Token} (h : maxDepth ≤ limit) :
    parseWatched alarm limit grammar tokens = parse grammar tokens := by
  rw [parseWatched, @Parser.watched_eq _ alarm limit maxDepth 0 (by omega), parse_eq_bind]

/-- Reading is bounded in depth: a tree that is given has at most 256 levels, every reader
    returns the depth of what it returns, and with an alarm set for more than 256 open
    calls of `expression` the outcome is the same whatever the alarm. -/
theorem parse_depth_bounded (grammar : Grammar) (tokens : List Token) (alarm : ParseError) :
    (∀ tree, parse grammar tokens = .ok tree → tree.depth ≤ 256) ∧
      (∀ endPosition levels, Parser.Measures ⟨grammar, endPosition⟩
        (Parser.expression ⟨grammar, endPosition⟩ levels)) ∧
      parseWatched alarm 256 grammar tokens = parse grammar tokens := by
  refine ⟨fun tree h => depth_le_of_parse h, fun endPosition levels => ?_, ?_⟩
  · exact .of_operand (Parser.expression_measured _ levels)
  · exact parseWatched_eq (Nat.le_refl maxDepth)

/-- The call `f(-a)` is read, at three levels. -/
theorem parse_depth_bounded_call : ∃ tree,
    parse .standard [⟨.identifier, .start, "f"⟩, ⟨.bracket, .start, "("⟩,
      ⟨.operator, .start, "-"⟩, ⟨.identifier, .start, "a"⟩, ⟨.bracket, .start, ")"⟩] =
        .ok tree ∧ tree.depth = 3 ∧ tree.depth ≤ 256 := by
  have parsed : parse .standard [⟨.identifier, .start, "f"⟩, ⟨.bracket, .start, "("⟩,
      ⟨.operator, .start, "-"⟩, ⟨.identifier, .start, "a"⟩, ⟨.bracket, .start, ")"⟩] =
        .ok (.call "f" [.unary "-" (.identifier "a")]) := by
    with_unfolding_all rfl
  exact ⟨_, parsed, rfl, (parse_depth_bounded .standard _ ⟨.start, .unexpectedEnd⟩).1 _ parsed⟩

-- The watch does see the calls: reading `--a` opens three.
example (alarm : ParseError) :
    parseWatched alarm 2 .standard
        [⟨.operator, .start, "-"⟩, ⟨.operator, .start, "-"⟩, ⟨.identifier, .start, "a"⟩] =
      .error alarm := by
  rfl

end Expr

end ExprMachine
