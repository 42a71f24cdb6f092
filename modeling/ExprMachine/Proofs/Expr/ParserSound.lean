/-
  ExprMachine.Proofs.Expr.ParserSound

  Whatever the parser accepts can be read: the tree that it gives stands at the front
  of the tokens, and the tokens that it leaves are those left after it.
-/
import ExprMachine.Proofs.Expr.Accepted

namespace ExprMachine.Parser

open Reading Token

-- ============================================================================
-- Steps of the parser
-- ============================================================================

theorem isBracket_current {setting : Setting} {tokens : List Token} {bracket : String} :
    (setting.current tokens).isBracket bracket = true ↔
      (symbols tokens).head? = some (.bracket bracket) := by
  cases tokens with
  | nil => simp [Setting.current, Token.isBracket]
  | cons token rest => simp [Setting.current, Token.isBracket_iff]

theorem isOperator_current {setting : Setting} {tokens : List Token} {symbol : String} :
    (setting.current tokens).isOperator symbol = true ↔
      (symbols tokens).head? = some (.operator symbol) := by
  cases tokens with
  | nil => simp [Setting.current, Token.isOperator]
  | cons token rest => simp [Setting.current, Token.isOperator_iff]

section Growing

variable {growth : Growth} {all : List Token} {left final : Parsed all}

theorem growFrom_none (h : growth left.expr left.depth left.rest = .ok none) :
    growFrom growth left = .ok left := by
  rw [growFrom, h]

theorem growFrom_some {larger : Parsed left.rest}
    (h : growth left.expr left.depth left.rest = .ok (some larger)) :
    growFrom growth left = growFrom growth (larger.within (Nat.le_of_lt left.rest_lt)) := by
  rw [growFrom, h]

theorem growFrom_error {error : ParseError}
    (h : growth left.expr left.depth left.rest = .error error) :
    growFrom growth left = .error error := by
  rw [growFrom, h]

/-- What every piece preserves holds of the grown tree, and no piece follows it. -/
theorem growFrom_sound {motive : Expr → List Token → Prop}
    (step : ∀ expr depth tokens (larger : Parsed tokens),
      growth expr depth tokens = .ok (some larger) → motive expr tokens →
        motive larger.expr larger.rest)
    (grown : growFrom growth left = .ok final) (start : motive left.expr left.rest) :
    motive final.expr final.rest ∧ growth final.expr final.depth final.rest = .ok none := by
  fun_induction growFrom growth left with
  | case1 left error h => cases grown
  | case2 left h =>
    cases grown
    exact ⟨start, h⟩
  | case3 left larger h ih => exact ih grown (step _ _ _ larger h start)

end Growing

-- ============================================================================
-- Sequences
-- ============================================================================

/-- Whatever the reader accepts can be read. -/
def Sound (grammar : Grammar) (operand : Reader) : Prop :=
  ∀ least tokens parsed, operand least tokens = .ok parsed →
    Reads grammar (.expression least parsed.expr) (symbols tokens) (symbols parsed.rest)

section Soundness

variable {setting : Setting} {operand : Reader} (sound : Sound setting.grammar operand)
include sound

theorem sequenceFrom_sound {kind : SequenceKind} {opened : Position} {all : List Token}
    {found : Array Expr} {depth : Nat} {tokens : List Token}
    {inside : tokens.length ≤ all.length} {parsed : ParsedSequence all}
    (h : sequenceFrom setting operand kind opened found depth tokens inside = .ok parsed) :
    ∃ items, parsed.exprs = found.toList ++ items ∧
      Reads setting.grammar (.items kind items) (symbols tokens) (symbols parsed.rest) := by
  fun_induction sequenceFrom setting operand kind opened found depth tokens inside with
  | case1 => cases h
  | case2 => cases h
  | case3 => cases h
  | case4 found depth tokens inside plain item hitem token after hrest _ closes =>
    cases h
    have read := sound _ _ _ hitem
    rw [hrest, symbols_cons, Token.isBracket_iff.1 closes] at read
    exact ⟨[item.expr], by simp, .last (mt isOperator_current.2 plain) read⟩
  | case5 => cases h
  | case6 found depth tokens inside plain item hitem token after hrest _ _ comma _ ih =>
    obtain ⟨items, hitems, rest⟩ := ih h
    have read := sound _ _ _ hitem
    rw [hrest, symbols_cons, Token.isOperator_iff.1 comma] at read
    exact ⟨item.expr :: items, by simp [hitems], .item (mt isOperator_current.2 plain) read rest⟩
  | case7 => cases h

theorem sequence_sound {kind : SequenceKind} {opened : Position} {tokens : List Token}
    {parsed : ParsedSequence tokens}
    (h : sequence setting operand kind opened tokens = .ok parsed) :
    Reads setting.grammar (.sequence kind parsed.exprs) (symbols tokens)
      (symbols parsed.rest) := by
  have items {tokens : List Token} {inside : tokens.length ≤ tokens.length}
      {parsed : ParsedSequence tokens}
      (h : sequenceFrom setting operand kind opened #[] 0 tokens inside = .ok parsed) :
      Reads setting.grammar (.sequence kind parsed.exprs) (symbols tokens)
        (symbols parsed.rest) := by
    obtain ⟨exprs, hexprs, read⟩ := sequenceFrom_sound sound h
    rw [show parsed.exprs = exprs by simpa using hexprs]
    exact .sequence read
  rcases sequence_cases h with ⟨token, htokens, closes, hexprs, -⟩ | read
  · rw [congrArg symbols htokens, symbols_cons, closes, hexprs]
    exact .empty
  · exact items read

theorem arguments_sound {tokens : List Token} {parsed : ParsedSequence tokens}
    (h : arguments? setting operand tokens = .ok (some parsed)) :
    ∃ between, symbols tokens = .bracket "(" :: between ∧
      Reads setting.grammar (.sequence .arguments parsed.exprs) between
        (symbols parsed.rest) := by
  cases arguments_accepted h with
  | @sequence token after _ opens read =>
    exact ⟨symbols after, by rw [symbols_cons, opens], sequence_sound sound read⟩

end Soundness

theorem arguments_none {setting : Setting} {operand : Reader} {tokens : List Token} :
    arguments? setting operand tokens = .ok none ↔
      opensArguments (symbols tokens) = false := by
  cases tokens with
  | nil => simp [arguments?, opensArguments]
  | cons token after =>
    unfold arguments? opensArguments
    by_cases opens : token.isBracket "(" = true
    · have hsymbol := Token.isBracket_iff.1 opens
      simp only [opens, if_true, symbols_cons, hsymbol]
      cases sequence setting operand .arguments token.position after <;> simp [Except.map]
    · have hsymbol := mt Token.isBracket_iff.2 opens
      simp [opens, hsymbol]

-- ============================================================================
-- Parts and infix operators
-- ============================================================================

theorem limited_map_ne_none {tokens : List Token} {place : Position} {parsed : Parsed tokens} :
    (limited tokens place parsed).map some ≠ .ok none := by
  unfold limited
  split <;> simp [Except.map]

section Parts

variable {setting : Setting} {operand : Reader} {left : Expr} {depth : Nat} {token : Token}
  {rest : List Token}

theorem part_ne_none_of_point (point : token.isOperator "." = true) :
    part? setting operand left depth (token :: rest) ≠ .ok none := by
  unfold part?
  simp only [point, if_true]
  intro h
  split at h
  · cases h
  · split at h
    · split at h
      · cases h
      · exact limited_map_ne_none h
      · exact limited_map_ne_none h
    · cases h

theorem part_ne_none_of_number (point : ¬ token.isOperator "." = true)
    (number : token.kind = .number ∧ token.value.toList.head? = some '.') :
    part? setting operand left depth (token :: rest) ≠ .ok none := by
  unfold part?
  simp only [if_neg point, if_pos number]
  intro h
  split at h
  · cases h
  · exact limited_map_ne_none h

/-- Without a point or indexes only arguments open a part, and that of a bare name. -/
theorem opensPart_eq_arguments (point : ¬ token.isOperator "." = true)
    (number : ¬ (token.kind = .number ∧ token.value.toList.head? = some '.')) :
    opensPart left (symbols (token :: rest)) =
      (opensArguments (symbols (token :: rest)) && left.isIdentifier) := by
  have noPoint : ((symbols (token :: rest)).head? == some (.operator ".")) = false := by
    simpa using mt Token.isOperator_iff.2 point
  have noIndexes : (symbols (token :: rest)).head?.any Symbol.isIndexes = false := by
    simpa [Symbol.isIndexes, Token.symbol] using number
  rw [opensPart, noPoint, noIndexes, Bool.false_or, Bool.false_or]

/-- No part is taken exactly where none opens. -/
theorem part_none {tokens : List Token} :
    part? setting operand left depth tokens = .ok none ↔
      opensPart left (symbols tokens) = false := by
  cases tokens with
  | nil => simp [part?, opensPart, opensArguments]
  | cons token rest =>
    by_cases point : token.isOperator "." = true
    · have opens : opensPart left (symbols (token :: rest)) = true := by
        simp [opensPart, Token.isOperator_iff.1 point]
      rw [opens]
      exact iff_of_false (part_ne_none_of_point point) (by decide)
    by_cases number : token.kind = .number ∧ token.value.toList.head? = some '.'
    · have opens : opensPart left (symbols (token :: rest)) = true := by
        simp [opensPart, Symbol.isIndexes, Token.symbol, number]
      rw [opens]
      exact iff_of_false (part_ne_none_of_number point number) (by decide)
    rw [opensPart_eq_arguments point number]
    unfold part?
    simp only [if_neg point, if_neg number]
    cases left with
    | identifier name =>
      simp only [Expr.isIdentifier, Bool.and_true]
      rw [← @arguments_none setting operand]
      constructor
      · intro h
        split at h
        · cases h
        · exact absurd h limited_map_ne_none
        · assumption
      · intro h
        rw [h]
    | _ => simp [Expr.isIdentifier]

end Parts

/-- No operator is taken exactly where none opens. -/
theorem infixOperand_none {setting : Setting} {operand : Reader} {least : Nat} {left : Expr}
    {depth : Nat} {tokens : List Token} :
    infixOperand? setting operand least left depth tokens = .ok none ↔
      opensInfix setting.grammar least (symbols tokens) = false := by
  cases tokens with
  | nil => simp [infixOperand?, opensInfix]
  | cons token rest =>
    unfold infixOperand? opensInfix
    by_cases operator : token.kind = .operator
    · cases known : setting.grammar.binary? token.value with
      | none => simp [operator, Token.symbol, known]
      | some info =>
        by_cases binds : info.priority < least
        · simp [operator, Token.symbol, known, binds]
        · simp only [operator, if_true, binds, if_false, symbols_cons, List.head?_cons,
            Option.any_some, Token.symbol, known, beq_self_eq_true, Bool.true_and]
          have hle : least ≤ info.priority := by omega
          refine iff_of_false (fun h => ?_) (by simp [hle])
          split at h
          · cases h
          · exact limited_map_ne_none h
    · simp [operator, Token.symbol]

section Soundness

variable {setting : Setting} {operand : Reader} (sound : Sound setting.grammar operand)
include sound

theorem Part.reads {start : List Symbol} {left expr : Expr} {depth depth' : Nat}
    {tokens rest : List Token} (h : Part setting operand left depth tokens expr depth' rest)
    (stem : Reads setting.grammar (.stem left) start (symbols tokens)) :
    Reads setting.grammar (.stem expr) start (symbols rest) := by
  cases h with
  | method isPoint isName found =>
    obtain ⟨between, hbetween, sequence⟩ := arguments_sound sound found
    rw [symbols_cons, symbols_cons, isPoint, isName, hbetween] at stem
    exact .method stem sequence
  | property isPoint isName noArguments =>
    rw [symbols_cons, symbols_cons, isPoint, isName] at stem
    exact .property stem (arguments_none.1 noArguments)
  | indexes isNumber point denotes =>
    rw [symbols_cons, isNumber] at stem
    rw [isNumber] at point
    exact .indexes stem point denotes
  | call found =>
    obtain ⟨between, hbetween, sequence⟩ := arguments_sound sound found
    rw [hbetween] at stem
    exact .call stem sequence

theorem InfixOperand.reads {least : Nat} {start : List Symbol} {left expr : Expr}
    {depth depth' : Nat} {tokens rest : List Token}
    (h : InfixOperand setting operand least left depth tokens expr depth' rest)
    (chain : Reads setting.grammar (.chain least left) start (symbols tokens)) :
    Reads setting.grammar (.chain least expr) start (symbols rest) := by
  cases h with
  | binary isOperator known binds read =>
    rw [symbols_cons, isOperator] at chain
    exact .binary chain known binds (sound _ _ _ read)

theorem withParts_sound {start : List Symbol} {all : List Token} {left parsed : Parsed all}
    (h : withParts setting operand left = .ok parsed)
    (stem : Reads setting.grammar (.stem left.expr) start (symbols left.rest)) :
    Reads setting.grammar (.operand parsed.expr) start (symbols parsed.rest) := by
  obtain ⟨grown, none⟩ := growFrom_sound
    (motive := fun expr tokens => Reads setting.grammar (.stem expr) start (symbols tokens))
    (fun _ _ _ _ taken => (part_accepted taken).1.reads sound) h stem
  exact .operand grown (part_none.1 none)

-- ============================================================================
-- Operands and expressions
-- ============================================================================

theorem Stem.reads {expr : Expr} {depth : Nat} {tokens rest : List Token}
    (h : Stem setting operand tokens expr depth rest) :
    Reads setting.grammar (.stem expr) (symbols tokens) (symbols rest) := by
  cases h with
  | unary isOperator known read =>
    rw [symbols_cons, isOperator]
    exact .unary known (sound _ _ _ read)
  | parentheses opens read behind closes =>
    have inner := sound _ _ _ read
    rw [behind, symbols_cons, closes] at inner
    rw [symbols_cons, opens]
    exact .parentheses inner
  | list opens read =>
    rw [symbols_cons, opens]
    exact .list (sequence_sound sound read)
  | call isWord plain found =>
    obtain ⟨between, hbetween, sequence⟩ := arguments_sound sound found
    rw [symbols_cons, isWord, hbetween]
    exact .call (.name plain) sequence
  | name isWord plain =>
    rw [symbols_cons, isWord]
    exact .name plain

theorem primary_sound {tokens : List Token} {parsed : Parsed tokens}
    (h : primary setting operand tokens = .ok parsed) :
    Reads setting.grammar (.operand parsed.expr) (symbols tokens) (symbols parsed.rest) := by
  cases primary_accepted h with
  | literal denotes _ rest_eq =>
    rw [symbols_cons, rest_eq]
    exact .literal denotes
  | parts read grown => exact withParts_sound sound grown (read.reads sound)

end Soundness

theorem expression_sound (setting : Setting) (levels : Nat) :
    Sound setting.grammar (expression setting levels) := by
  induction levels with
  | zero =>
    intro least tokens parsed h
    cases h
  | succ levels ih =>
    intro least tokens parsed h
    obtain ⟨left, read, grown⟩ := expression_accepted h
    obtain ⟨chain, none⟩ := growFrom_sound
      (motive := fun expr rest => Reads setting.grammar (.chain least expr) (symbols tokens)
        (symbols rest))
      (fun _ _ _ _ taken => (infixOperand_accepted taken).1.reads ih) grown
      (.single (primary_sound ih read))
    exact .expression chain (infixOperand_none.1 none)

end ExprMachine.Parser
