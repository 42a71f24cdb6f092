/-
  ExprMachine.Proofs.Expr.Failures

  Why a list of tokens is refused. A limit is met, a bracket stays open to the end, or the
  tokens before the one to blame begin an expression.
-/
import ExprMachine.Proofs.Expr.Beginnings
import ExprMachine.Proofs.Expr.Blame
import ExprMachine.Proofs.Expr.Brackets
import ExprMachine.Proofs.Expr.Remaining

namespace ExprMachine

namespace Parser

open Reading Token

-- ============================================================================
-- Ways of failing
-- ============================================================================

/-- What an error of a reader that may open so many levels says about its tokens. -/
inductive Fails (setting : Setting) (levels : Nat) (goal : Goal) (tokens : List Token)
    (error : ParseError) : Prop where
  /-- The tokens are too many for the levels or too heavy for the limit of depth. -/
  | tooDeep (cause : error.cause = .nestedTooDeeply)
      (limit : levels ≤ tokens.length ∨ maxDepth < weight (symbols tokens))
  /-- A bracket stays open, and all brackets after it are closed. -/
  | unclosed (before : List Token) {inside : List Token} {opened : Token}
      (code : error.code = "RB-P005") (split : tokens = before ++ opened :: inside)
      (opens : opened.symbol.closing?.isSome = true) (place : error.position = opened.position)
      (balanced : Balanced (symbols inside))
  /-- The tokens begin what is read up to the one to blame, or all of them do. -/
  | stopped (front : List Token) {halted : List Token} (code : error.code ≠ "RB-P005")
      (split : tokens = front ++ halted)
      (place : error.position = (setting.current halted).position)
      (ends : error.code = "RB-P002" → (setting.current halted).isEnd = true)
      (begins : Begins setting.grammar goal (symbols tokens) (symbols halted))

section Fails

variable {setting : Setting} {levels : Nat} {goal : Goal} {tokens : List Token}
  {error : ParseError}

theorem symbols_append (tokens others : List Token) :
    symbols (tokens ++ others) = symbols tokens ++ symbols others :=
  List.map_append

/-- An error is at fault in the same way for more tokens, of which it uses up levels. -/
theorem Fails.within {levels' : Nat} {goal' : Goal} {all : List Token}
    (h : Fails setting levels goal tokens error) (front : List Token)
    (split : all = front ++ tokens) (deeper : levels' ≤ levels + front.length)
    (lifts : ∀ rest, Begins setting.grammar goal (symbols tokens) rest →
      Begins setting.grammar goal' (symbols all) rest) :
    Fails setting levels' goal' all error := by
  cases h with
  | tooDeep cause limit =>
    refine .tooDeep cause ?_
    rw [split, symbols_append, weight_append, List.length_append]
    omega
  | @unclosed before _ _ code inner opens place balanced =>
    refine .unclosed (front ++ before) code ?_ opens place balanced
    rw [split, inner, List.append_assoc]
  | @stopped before _ code inner place ends begins =>
    refine .stopped (front ++ before) code ?_ place ends (lifts _ begins)
    rw [split, inner, List.append_assoc]

/-- An error at a token that cannot follow what has been read, wherever it stands. -/
theorem Fails.refused (front : List Token) {halted : List Token}
    (code : error.code ≠ "RB-P005" ∧ error.code ≠ "RB-P002") (split : tokens = front ++ halted)
    (place : error.position = (setting.current halted).position)
    (begins : Begins setting.grammar goal (symbols tokens) (symbols halted)) :
    Fails setting levels goal tokens error :=
  .stopped front code.1 split place (fun code' => absurd code' code.2) begins

/-- A tree that is too deep has been read. -/
theorem Fails.of_burden {phrase : Phrase} {rest : List Symbol}
    (cause : error.cause = .nestedTooDeeply) (deep : maxDepth < phrase.burden 0)
    (reads : Reads setting.grammar phrase (symbols tokens) rest) :
    Fails setting levels goal tokens error :=
  .tooDeep cause (.inr (Nat.lt_of_lt_of_le deep reads.depth_le))

theorem unexpected_fails (tokens : List Token) :
    Fails setting levels goal tokens (unexpected (setting.current tokens)) := by
  unfold unexpected
  split
  · rename_i isEnd
    exact .stopped [] (by simp [ParseError.code]) rfl rfl (fun _ => isEnd) .here
  · exact .refused [] (by simp [ParseError.code]) rfl rfl .here

theorem limited_error {place : Position} {parsed : Parsed tokens}
    (h : limited tokens place parsed = .error error) :
    error.cause = .nestedTooDeeply ∧ maxDepth < parsed.depth := by
  unfold limited at h
  split at h
  · cases h
    exact ⟨rfl, ‹_›⟩
  · cases h

theorem limited_map_error {place : Position} {parsed : Parsed tokens}
    (h : (limited tokens place parsed).map some = .error error) :
    error.cause = .nestedTooDeeply ∧ maxDepth < parsed.depth := by
  cases hlimited : limited tokens place parsed with
  | ok result =>
    rw [hlimited] at h
    cases h
  | error refused =>
    rw [hlimited] at h
    cases h
    exact limited_error hlimited

theorem code_of_ofNumber {lexeme : String} {place : Position} {cause : ParseCause}
    (h : Expr.ofNumber lexeme = .error cause) : ParseError.code ⟨place, cause⟩ = "RB-P006" := by
  unfold Expr.ofNumber at h
  simp only at h
  split at h
  · split at h
    · cases h
    · cases h
      rfl
  · split at h
    · cases h
    · cases h
      rfl

end Fails

/-- The error of a loop is that of one of its pieces, at a place that the loop comes to. -/
theorem growFrom_error_cases {growth : Growth} {all : List Token} {left : Parsed all}
    {error : ParseError} {motive : Expr → Nat → List Token → Prop}
    (step : ∀ expr depth tokens (larger : Parsed tokens),
      growth expr depth tokens = .ok (some larger) → motive expr depth tokens →
        motive larger.expr larger.depth larger.rest)
    (h : growFrom growth left = .error error) (start : motive left.expr left.depth left.rest) :
    ∃ expr depth tokens, motive expr depth tokens ∧ growth expr depth tokens = .error error := by
  fun_induction growFrom growth left with
  | case1 left refused hgrowth =>
    cases h
    exact ⟨_, _, _, start, hgrowth⟩
  | case2 => cases h
  | case3 left larger grown ih => exact ih h (step _ _ _ larger grown start)

/-- What is known of a reader of operands whose errors are understood. -/
structure Explained (setting : Setting) (levels : Nat) (operand : Reader) : Prop where
  sound : Sound setting.grammar operand
  measured : operand.Measured
  suffixed : operand.Suffixed
  fails : ∀ {least tokens error}, operand least tokens = .error error →
    Fails setting levels (.expression least) tokens error

section Explained

variable {setting : Setting} {levels : Nat} {operand : Reader} {tokens all : List Token}
  {error : ParseError} (explained : Explained setting levels operand)
include explained

-- ============================================================================
-- Sequences
-- ============================================================================

theorem sequenceFrom_fails {kind : SequenceKind} {opened : Position} {found : Array Expr}
    {depth : Nat} {inside : tokens.length ≤ all.length}
    (h : sequenceFrom setting operand kind opened found depth tokens inside = .error error) :
    Fails setting levels (.items kind) tokens error ∨
      (error = ⟨opened, .unclosedSequence kind⟩ ∧ Balanced (symbols tokens)) := by
  have reads {tokens : List Token} {item : Parsed tokens} (hitem : operand 0 tokens = .ok item) :=
    explained.sound 0 tokens item hitem
  have suffix {tokens : List Token} {item : Parsed tokens} (hitem : operand 0 tokens = .ok item) :=
    explained.suffixed 0 tokens item hitem
  fun_induction sequenceFrom setting operand kind opened found depth tokens inside with
  | case1 =>
    cases h
    exact .inl (.refused [] (by simp [ParseError.code]) rfl rfl .here)
  | case2 _ _ tokens _ _ refused hitem =>
    cases h
    exact .inl ((explained.fails hitem).within [] rfl (Nat.le_refl _) fun _ => .item)
  | case3 _ _ tokens _ _ item hitem hrest =>
    cases h
    have read := reads hitem
    rw [hrest] at read
    exact .inr ⟨rfl, read.balanced⟩
  | case4 => cases h
  | case5 _ _ tokens _ _ item hitem token after hrest _ _ comma =>
    cases h
    have read := reads hitem
    rw [hrest, symbols_cons, Token.isOperator_iff.1 comma] at read
    obtain ⟨front, split⟩ := suffix hitem
    rw [hrest, List.append_cons] at split
    exact .inl (.refused _ (by simp [ParseError.code]) split.symm rfl (.next read .here))
  | case6 _ _ tokens _ _ item hitem token after hrest _ _ comma _ ih =>
    have read := reads hitem
    rw [hrest, symbols_cons, Token.isOperator_iff.1 comma] at read
    obtain ⟨front, split⟩ := suffix hitem
    rw [hrest, List.append_cons] at split
    refine (ih h).imp (fun fails => ?_) fun unclosed => ⟨unclosed.1, ?_⟩
    · exact fails.within _ split.symm (Nat.le_add_right ..) fun _ => .next read
    · exact ((read.awaited_eq []).trans awaited_operator).trans unclosed.2
  | case7 _ _ tokens _ _ item hitem token after hrest =>
    cases h
    have read := reads hitem
    rw [hrest] at read
    obtain ⟨front, split⟩ := suffix hitem
    rw [hrest] at split
    exact .inl (.refused _ (by simp [ParseError.code]) split.symm rfl (.item (.whole read)))

/-- A sequence fails inside its brackets, or for lack of the closing one. -/
theorem sequence_fails {kind : SequenceKind} {opened : Token} {goal : Goal} {levels' : Nat}
    (h : sequence setting operand kind opened.position tokens = .error error)
    (front : List Token) (split : all = front ++ opened :: tokens)
    (opens : opened.symbol.closing?.isSome = true) (deeper : levels' ≤ levels + (front.length + 1))
    (lifts : ∀ rest, Begins setting.grammar (.sequence kind) (symbols tokens) rest →
      Begins setting.grammar goal (symbols all) rest) :
    Fails setting levels' goal all error := by
  have items {tokens : List Token} {inside : tokens.length ≤ tokens.length}
      (h : sequenceFrom setting operand kind opened.position #[] 0 tokens inside = .error error)
      (split : all = front ++ opened :: tokens)
      (lifts : ∀ rest, Begins setting.grammar (.sequence kind) (symbols tokens) rest →
        Begins setting.grammar goal (symbols all) rest) :
      Fails setting levels' goal all error := by
    rcases sequenceFrom_fails explained h with fails | ⟨rfl, balanced⟩
    · rw [List.append_cons] at split
      refine fails.within _ split ?_ fun rest begins => lifts rest (.items begins)
      rw [List.length_append, List.length_singleton]
      exact deeper
    · exact .unclosed front rfl split opens rfl balanced
  unfold sequence at h
  split at h
  · exact items h split lifts
  · split at h
    · cases h
    · exact items h split lifts

/-- Arguments fail in the same way. -/
theorem arguments_fails {goal : Goal} {levels' : Nat}
    (h : arguments? setting operand tokens = .error error) (front : List Token)
    (split : all = front ++ tokens) (deeper : levels' ≤ levels + (front.length + 1))
    (lifts : ∀ between rest, symbols tokens = .bracket "(" :: between →
      Begins setting.grammar (.sequence .arguments) between rest →
        Begins setting.grammar goal (symbols all) rest) :
    Fails setting levels' goal all error := by
  unfold arguments? at h
  split at h
  · cases h
  · rename_i opened after
    split at h
    · rename_i isOpen
      have hopened := Token.isBracket_iff.1 isOpen
      cases hread : sequence setting operand .arguments opened.position after with
      | ok arguments =>
        rw [hread] at h
        cases h
      | error refused =>
        rw [hread] at h
        cases h
        have opens : opened.symbol.closing?.isSome = true := by
          rw [hopened]
          rfl
        refine sequence_fails explained hread front split opens deeper fun rest => ?_
        exact lifts (symbols after) rest (by rw [symbols_cons, hopened])
    · cases h

-- ============================================================================
-- Parts and infix operators
-- ============================================================================

/-- A tree that has been read off the front of the tokens and may grow. -/
structure Grown (grammar : Grammar) (phrase : Expr → Phrase) (all : List Token) (expr : Expr)
    (depth : Nat) (rest : List Token) : Prop where
  suffix : rest <:+ all
  depth_eq : depth = expr.depth
  reads : Reads grammar (phrase expr) (symbols all) (symbols rest)

omit explained in
/-- A larger tree that is too deep for the limit. -/
theorem limited_fails {goal : Goal} {all : List Token} {place : Position} {parsed : Parsed tokens}
    {phrase : Phrase} {rest : List Symbol}
    (h : (limited tokens place parsed).map some = .error error)
    (depth_le : parsed.depth ≤ phrase.burden 0)
    (reads : Reads setting.grammar phrase (symbols all) rest) :
    Fails setting levels goal all error := by
  obtain ⟨cause, deep⟩ := limited_map_error h
  exact .of_burden cause (Nat.lt_of_lt_of_le deep depth_le) reads

/-- What follows a point fails if it is no name, or has arguments that fail. -/
theorem part_fails_of_point {left : Expr} {depth : Nat} {point : Token}
    (isPoint : point.isOperator "." = true)
    (h : part? setting operand left depth (point :: tokens) = .error error)
    (grown : Grown setting.grammar .stem all left depth (point :: tokens)) :
    Fails setting (levels + 1) .operand all error := by
  obtain ⟨⟨front, split⟩, rfl, stem⟩ := grown
  rw [symbols_cons, Token.isOperator_iff.1 isPoint] at stem
  rw [List.append_cons] at split
  unfold part? at h
  simp only [isPoint, if_true] at h
  split at h
  · cases h
    exact .refused _ (by simp [ParseError.code]) split.symm rfl (.point stem)
  rename_i name after
  split at h
  · rename_i isName
    have hname : name.symbol = .word name.value := by rw [Token.symbol, isName]
    rw [symbols_cons, hname] at stem
    rw [List.append_cons] at split
    split at h
    · rename_i refused harguments
      cases h
      refine arguments_fails explained harguments _ split.symm ?_ fun between rest hafter => ?_
      · simp only [List.length_append, List.length_singleton]
        omega
      · rw [hafter] at stem
        exact .method stem
    · rename_i arguments harguments
      obtain ⟨between, hbetween, sequence⟩ := arguments_sound explained.sound harguments
      rw [hbetween] at stem
      refine limited_fails h ?_ (.method stem sequence)
      have depth_eq := (arguments_measured explained.measured harguments).depth_eq
      simp only [Phrase.burden, Expr.depth, depth_eq]
      omega
    · rename_i none
      refine limited_fails h ?_ (.property stem (arguments_none.1 none))
      simp only [Phrase.burden, Expr.depth]
      omega
  · cases h
    exact .refused _ (by simp [ParseError.code]) split.symm rfl (.point stem)

theorem part_fails {left : Expr} {depth : Nat}
    (h : part? setting operand left depth tokens = .error error)
    (grown : Grown setting.grammar .stem all left depth tokens) :
    Fails setting (levels + 1) .operand all error := by
  cases tokens with
  | nil => cases h
  | cons token rest =>
    by_cases point : token.isOperator "." = true
    · exact part_fails_of_point explained point h grown
    obtain ⟨⟨front, split⟩, rfl, stem⟩ := grown
    unfold part? at h
    simp only [if_neg point] at h
    split at h
    · rename_i number
      have hnumber : token.symbol = .number token.value := by rw [Token.symbol, number.1]
      split at h
      · cases h
        exact .refused _ (by simp [ParseError.code]) split.symm rfl (.stem stem)
      · rename_i path denotes
        rw [symbols_cons, hnumber] at stem
        refine limited_fails h ?_ (.indexes stem (by simp [Symbol.isIndexes, number.2]) denotes)
        simp only [Phrase.burden, Expr.depth_foldl_property]
        omega
    · split at h
      · split at h
        · rename_i refused harguments
          cases h
          refine arguments_fails explained harguments _ split.symm ?_ fun between rest hafter => ?_
          · omega
          · rw [hafter] at stem
            exact .call stem
        · rename_i arguments harguments
          obtain ⟨between, hbetween, sequence⟩ := arguments_sound explained.sound harguments
          rw [hbetween] at stem
          refine limited_fails h ?_ (.call stem sequence)
          have depth_eq := (arguments_measured explained.measured harguments).depth_eq
          simp only [Phrase.burden, Expr.depth, depth_eq]
          omega
        · cases h
      · cases h

theorem withParts_fails {left : Parsed all} (h : withParts setting operand left = .error error)
    (grown : Grown setting.grammar .stem all left.expr left.depth left.rest) :
    Fails setting (levels + 1) .operand all error := by
  have step (expr : Expr) (depth : Nat) (tokens : List Token) (larger : Parsed tokens)
      (taken : part? setting operand expr depth tokens = .ok (some larger))
      (grown : Grown setting.grammar .stem all expr depth tokens) :
      Grown setting.grammar .stem all larger.expr larger.depth larger.rest := by
    refine ⟨(part_suffix explained.suffixed _ _ _ _ taken).trans grown.suffix, ?_,
      (part_accepted taken).1.reads explained.sound grown.reads⟩
    rw [grown.depth_eq] at taken
    exact (part_measured explained.measured _ _ _ taken).depth_eq
  obtain ⟨expr, depth, tokens, grown, refused⟩ := growFrom_error_cases step h grown
  exact part_fails explained refused grown

theorem infixOperand_fails {least : Nat} {left : Expr} {depth : Nat}
    (h : infixOperand? setting operand least left depth tokens = .error error)
    (grown : Grown setting.grammar (.chain least) all left depth tokens) :
    Fails setting (levels + 1) (.expression least) all error := by
  obtain ⟨⟨front, split⟩, rfl, chain⟩ := grown
  unfold infixOperand? at h
  split at h
  · cases h
  rename_i token rest
  split at h
  · rename_i operator
    have hoperator : token.symbol = .operator token.value := by rw [Token.symbol, operator]
    rw [symbols_cons, hoperator] at chain
    split at h
    · cases h
    rename_i info known
    split at h
    · cases h
    rename_i binds
    have binds : least ≤ info.priority := Nat.le_of_not_lt binds
    split at h
    · rename_i refused hright
      cases h
      rw [List.append_cons] at split
      refine (explained.fails hright).within _ split.symm ?_ fun _ => .binary chain known binds
      simp only [List.length_append, List.length_singleton]
      omega
    · rename_i right hright
      refine limited_fails h ?_ (.binary chain known binds (explained.sound _ _ _ hright))
      have depth_eq := (explained.measured _ _ _ hright).depth_eq
      simp only [Phrase.burden, Expr.depth, depth_eq]
      omega
  · cases h

-- ============================================================================
-- Operands and expressions
-- ============================================================================

omit explained in
/-- A whole operand that is too deep for the limit. -/
theorem Grown.fails {place : Position} {whole : Parsed all}
    (grown : Grown setting.grammar .stem all whole.expr whole.depth whole.rest)
    (h : limited all place whole = .error error) :
    Fails setting (levels + 1) .operand all error := by
  obtain ⟨cause, deep⟩ := limited_error h
  rw [grown.depth_eq] at deep
  exact .of_burden cause (Nat.lt_of_lt_of_le deep (Nat.le_max_right ..)) grown.reads

theorem wordOperand_fails {word : Token} (isWord : word.kind = .identifier)
    (h : wordOperand setting operand word tokens = .error error) :
    Fails setting (levels + 1) .operand (word :: tokens) error := by
  have hword : word.symbol = .word word.value := by rw [Token.symbol, isWord]
  unfold wordOperand at h
  split at h
  · cases h
  split at h
  · cases h
  split at h
  · cases h
  rename_i notTrue notFalse notNil
  have plain : Symbol.literal? (.word word.value) = none := by
    simp [Symbol.literal?, notTrue, notFalse, notNil]
  have name : Reads setting.grammar (.stem (.identifier word.value)) (symbols (word :: tokens))
      (symbols tokens) := by
    rw [symbols_cons, hword]
    exact .name plain
  split at h
  · rename_i refused harguments
    cases h
    refine arguments_fails explained harguments [word] rfl ?_ fun between rest hafter => ?_
    · simp only [List.length_singleton]
      omega
    · rw [hafter] at name
      exact .call name
  · rename_i arguments harguments
    obtain ⟨between, hbetween, sequence⟩ := arguments_sound explained.sound harguments
    have depth_eq := (arguments_measured explained.measured harguments).depth_eq
    rw [hbetween] at name
    have grown : Grown setting.grammar .stem (word :: tokens) (.call word.value arguments.exprs)
        (arguments.depth + 1) arguments.rest :=
      ⟨(arguments_suffix explained.suffixed harguments).trans (List.suffix_cons _ _),
        by simp only [Expr.depth, depth_eq], .call name sequence⟩
    split at h
    · rename_i refused hwhole
      cases h
      exact grown.fails hwhole
    · rename_i whole hwhole
      obtain ⟨rfl, -⟩ := limited_ok hwhole
      exact withParts_fails explained h grown
  · exact withParts_fails explained h ⟨List.suffix_cons _ _, rfl, name⟩

theorem parenthesised_fails {opened : Token} (opens : opened.symbol = .bracket "(")
    (h : parenthesised setting operand opened tokens = .error error) :
    Fails setting (levels + 1) .operand (opened :: tokens) error := by
  have lifts (rest : List Symbol)
      (begins : Begins setting.grammar (.expression 0) (symbols tokens) rest) :
      Begins setting.grammar .operand (symbols (opened :: tokens)) rest := by
    rw [symbols_cons, opens]
    exact .parentheses begins
  unfold parenthesised at h
  split at h
  · rename_i refused hinner
    cases h
    exact (explained.fails hinner).within [opened] rfl (Nat.le_refl _) lifts
  rename_i inner hinner
  have read := explained.sound _ _ _ hinner
  obtain ⟨front, split⟩ := explained.suffixed _ _ _ hinner
  split at h
  · rename_i hrest
    cases h
    rw [hrest] at read
    exact .unclosed [] rfl rfl (by rw [opens]; rfl) rfl read.balanced
  rename_i token after hrest
  rw [hrest] at read split
  split at h
  · rename_i closes
    rw [symbols_cons, Token.isBracket_iff.1 closes] at read
    have behind : after <:+ tokens := ⟨front ++ [token], by rw [← split, ← List.append_cons]⟩
    refine withParts_fails explained h ⟨behind.trans (List.suffix_cons _ _), ?_, ?_⟩
    · exact (explained.measured _ _ _ hinner).depth_eq
    · rw [symbols_cons, opens]
      exact .parentheses read
  · cases h
    exact .refused (opened :: front) (by simp [ParseError.code]) (by simp [split]) rfl
      (lifts _ (.whole read))

omit explained in
theorem unexpected_head_fails {goal : Goal} {token : Token} {α : Type}
    (h : (.error (unexpected token) : Except ParseError α) = .error error) :
    Fails setting levels goal (token :: tokens) error := by
  cases h
  exact unexpected_fails (token :: tokens)

/-- An operand fails that starts with an operator. -/
theorem primary_fails_of_operator {token : Token} (isOperator : token.kind = .operator)
    (h : primary setting operand (token :: tokens) = .error error) :
    Fails setting (levels + 1) .operand (token :: tokens) error := by
  have hsymbol : token.symbol = .operator token.value := by rw [Token.symbol, isOperator]
  unfold primary at h
  simp only [isOperator] at h
  split at h
  · exact unexpected_head_fails h
  rename_i info known
  split at h
  · rename_i hinner
    cases h
    refine (explained.fails hinner).within [token] rfl (Nat.le_refl _) fun _ => ?_
    rw [symbols_cons, hsymbol]
    exact .unary known
  rename_i inner hinner
  have grown : Grown setting.grammar .stem (token :: tokens) (.unary token.value inner.expr)
      (inner.depth + 1) inner.rest := by
    refine ⟨(explained.suffixed _ _ _ hinner).trans (List.suffix_cons _ _), ?_, ?_⟩
    · simp only [Expr.depth, (explained.measured _ _ _ hinner).depth_eq]
    · rw [symbols_cons, hsymbol]
      exact .unary known (explained.sound _ _ _ hinner)
  split at h
  · rename_i hwhole
    cases h
    exact grown.fails hwhole
  · rename_i whole hwhole
    obtain ⟨rfl, -⟩ := limited_ok hwhole
    exact withParts_fails explained h grown

/-- An operand fails that starts with a bracket. -/
theorem primary_fails_of_bracket {token : Token} (isBracket : token.kind = .bracket)
    (h : primary setting operand (token :: tokens) = .error error) :
    Fails setting (levels + 1) .operand (token :: tokens) error := by
  have hsymbol {bracket : String} (h : token.value = bracket) :
      token.symbol = .bracket bracket := by rw [Token.symbol, isBracket, h]
  unfold primary at h
  simp only [isBracket] at h
  split at h
  · rename_i opens
    exact parenthesised_fails explained (hsymbol opens) h
  split at h
  · rename_i opens
    have hopened := hsymbol opens
    split at h
    · rename_i hitems
      cases h
      refine sequence_fails explained hitems [] rfl (by rw [hopened]; rfl)
        (Nat.le_refl _) fun _ => ?_
      rw [symbols_cons, hopened]
      exact .list
    rename_i items hitems
    have grown : Grown setting.grammar .stem (token :: tokens) (.list items.exprs)
        (items.depth + 1) items.rest := by
      refine ⟨(sequence_suffix explained.suffixed hitems).trans (List.suffix_cons _ _), ?_, ?_⟩
      · simp only [Expr.depth, (sequence_measured explained.measured hitems).depth_eq]
      · rw [symbols_cons, hopened]
        exact .list (sequence_sound explained.sound hitems)
    split at h
    · rename_i hwhole
      cases h
      exact grown.fails hwhole
    · rename_i whole hwhole
      obtain ⟨rfl, -⟩ := limited_ok hwhole
      exact withParts_fails explained h grown
  · exact unexpected_head_fails h

theorem primary_fails (h : primary setting operand tokens = .error error) :
    Fails setting (levels + 1) .operand tokens error := by
  cases tokens with
  | nil =>
    cases h
    exact unexpected_fails []
  | cons token rest =>
    cases hkind : token.kind with
    | operator => exact primary_fails_of_operator explained hkind h
    | bracket => exact primary_fails_of_bracket explained hkind h
    | identifier =>
      simp only [primary, hkind] at h
      exact wordOperand_fails explained hkind h
    | number =>
      simp only [primary, hkind] at h
      split at h
      · rename_i cause hnumber
        cases h
        have code := @code_of_ofNumber _ token.position _ hnumber
        exact .refused [] (by simp [code]) rfl rfl .here
      · cases h
    | text =>
      simp only [primary, hkind] at h
      cases h
    | endOfInput =>
      simp only [primary, hkind] at h
      exact unexpected_head_fails h

theorem chain_fails {least : Nat} {left : Parsed tokens}
    (hleft : primary setting operand tokens = .ok left)
    (h : growFrom (infixOperand? setting operand least) left = .error error) :
    Fails setting (levels + 1) (.expression least) tokens error := by
  have start : Grown setting.grammar (.chain least) tokens left.expr left.depth left.rest :=
    ⟨primary_suffix explained.suffixed hleft, (primary_measured explained.measured hleft).depth_eq,
      .single (primary_sound explained.sound hleft)⟩
  have step (expr : Expr) (depth : Nat) (rest : List Token) (larger : Parsed rest)
      (taken : infixOperand? setting operand least expr depth rest = .ok (some larger))
      (grown : Grown setting.grammar (.chain least) tokens expr depth rest) :
      Grown setting.grammar (.chain least) tokens larger.expr larger.depth larger.rest := by
    refine ⟨(infixOperand_suffix explained.suffixed least _ _ _ _ taken).trans grown.suffix, ?_,
      (infixOperand_accepted taken).1.reads explained.sound grown.reads⟩
    rw [grown.depth_eq] at taken
    exact (infixOperand_measured explained.measured least _ _ _ taken).depth_eq
  obtain ⟨expr, depth, rest, grown, refused⟩ := growFrom_error_cases step h start
  exact infixOperand_fails explained refused grown

end Explained

/-- Every error of the parser is explained. -/
theorem expression_explained (setting : Setting) (levels : Nat) :
    Explained setting levels (expression setting levels) := by
  have of_fails (levels : Nat) := @Explained.mk setting levels (expression setting levels)
    (expression_sound setting levels) (expression_measured setting levels)
    (expression_suffix setting levels)
  induction levels with
  | zero =>
    refine of_fails 0 fun h => ?_
    cases h
    exact .tooDeep rfl (.inl (Nat.zero_le _))
  | succ levels explained =>
    refine of_fails (levels + 1) fun h => ?_
    unfold expression at h
    split at h
    · rename_i hprimary
      cases h
      exact (primary_fails explained hprimary).within [] rfl (Nat.le_refl _)
        fun _ => .first
    · rename_i left hleft
      exact chain_fails explained hleft h

end Parser

-- ============================================================================
-- Whole lists of tokens
-- ============================================================================

namespace Expr

open ExprMachine.Parser Reading

variable {grammar : Grammar} {tokens : List Token} {error : ParseError}

/-- Every error of a whole list is explained. -/
theorem parse_fails (h : parse grammar tokens = .error error) :
    Fails ⟨grammar, endPosition tokens⟩ maxDepth (.expression 0) (tokens.takeWhile (!·.isEnd))
      error := by
  have explained := expression_explained ⟨grammar, endPosition tokens⟩ maxDepth
  unfold parse at h
  dsimp only at h
  split at h
  · rename_i refused
    cases h
    exact explained.fails refused
  · rename_i parsed hparsed
    obtain ⟨front, split⟩ := explained.suffixed _ _ _ hparsed
    have reads := explained.sound _ _ _ hparsed
    split at h
    · cases h
    · rename_i token after hrest
      cases h
      rw [hrest] at split reads
      exact .refused _ (by simp [ParseError.code]) split.symm rfl (.whole reads)

/-- The tokens with a mark of the end after them, unless one stands last: it is at the place
    of the last token. -/
def marked (tokens : List Token) : List Token :=
  if tokens.getLast?.any Token.isEnd then tokens
  else tokens ++ [⟨.endOfInput, (tokens.getLast?.map Token.position).getD .start, ""⟩]

/-- The place of the end is that of the first mark. -/
theorem exists_mark (tokens : List Token) :
    ∃ mark, (marked tokens).find? Token.isEnd = some mark ∧
      mark.position = endPosition tokens := by
  unfold marked endPosition
  cases hfind : tokens.find? Token.isEnd with
  | some mark =>
    refine ⟨mark, ?_, rfl⟩
    split
    · exact hfind
    · rw [List.find?_append, hfind]
      rfl
  | none =>
    have last : tokens.getLast?.any Token.isEnd = false := by
      cases hlast : tokens.getLast? with
      | none => rfl
      | some token =>
        have others := List.find?_eq_none.1 hfind token (List.mem_of_getLast? hlast)
        simpa using others
    refine ⟨⟨.endOfInput, (tokens.getLast?.map Token.position).getD .start, ""⟩, ?_, rfl⟩
    rw [last, if_neg Bool.false_ne_true, List.find?_append, hfind]
    rfl

theorem isSome_closing?_iff {token : Token} :
    token.symbol.closing?.isSome = true ↔
      token.isBracket "(" = true ∨ token.isBracket "[" = true := by
  rw [Token.isBracket_iff, Token.isBracket_iff, Symbol.closing?]
  split
  · exact iff_of_true rfl (.inl ‹_›)
  split
  · exact iff_of_true rfl (.inr ‹_›)
  · rename_i parenthesis list
    exact iff_of_false Bool.false_ne_true (not_or.2 ⟨parenthesis, list⟩)

/-- Every error is at the place of a token or of the mark of the end. The end is unexpected
    at its first mark, and a bracket is unclosed whose match is not among the tokens before
    that mark, while every bracket that opens after it has its own there. -/
theorem parse_blames (h : parse grammar tokens = .error error) :
    (∃ token ∈ marked tokens, error.position = token.position) ∧
      (error.code = "RB-P002" → ∃ mark, (marked tokens).find? Token.isEnd = some mark ∧
        error.position = mark.position) ∧
      (error.code = "RB-P005" → ∃ before opened inside,
        tokens.takeWhile (!·.isEnd) = before ++ opened :: inside ∧
          (opened.isBracket "(" = true ∨ opened.isBracket "[" = true) ∧
          error.position = opened.position ∧
          ¬HasMatch opened.symbol (Token.symbols inside) ∧
          ∀ between later after, inside = between ++ later :: after →
            later.isBracket "(" = true ∨ later.isBracket "[" = true →
              HasMatch later.symbol (Token.symbols after)) := by
  obtain ⟨mark, hmark, atEnd⟩ := exists_mark tokens
  refine ⟨?_, fun code => ⟨mark, hmark, ?_⟩, fun code => ?_⟩
  · obtain ⟨token, mem | rfl, blames⟩ := exists_blames_of_parse h
    · refine ⟨token, ?_, blames.position⟩
      have inner := (List.takeWhile_prefix _).subset mem
      unfold marked
      split
      · exact inner
      · exact List.mem_append_left _ inner
    · exact ⟨mark, List.mem_of_find?_eq_some hmark, blames.position.trans atEnd.symm⟩
  · cases parse_fails h with
    | tooDeep cause => simp [ParseError.code, cause] at code
    | unclosed _ other => simp [other] at code
    | @stopped front halted _ split place ends =>
      cases halted with
      | nil => exact place.trans atEnd.symm
      | cons token rest =>
        have mem : token ∈ tokens.takeWhile (!·.isEnd) := by simp [split]
        have notEnd := List.mem_takeWhile_imp mem
        rw [show token.isEnd = true from ends code] at notEnd
        cases notEnd
  · cases parse_fails h with
    | tooDeep cause => simp [ParseError.code, cause] at code
    | stopped _ other => exact absurd code other
    | @unclosed before inside opened _ split opens place balanced =>
      refine ⟨before, opened, inside, split, isSome_closing?_iff.1 opens, place,
        balanced.not_hasMatch, ?_⟩
      rintro between later after rfl laterOpens
      obtain ⟨close, hclose⟩ := Option.isSome_iff_exists.1 (isSome_closing?_iff.2 laterOpens)
      rw [symbols_append, Token.symbols_cons] at balanced
      exact balanced.hasMatch hclose

/-- A parenthesis that is closed only after the mark of the end, before a list that is closed
    in time. -/
theorem parse_blames_parenthesis : ∃ error,
    parse .standard [⟨.bracket, ⟨1, 0⟩, "("⟩, ⟨.bracket, ⟨1, 1⟩, "["⟩, ⟨.text, ⟨1, 2⟩, "a"⟩,
        ⟨.bracket, ⟨1, 5⟩, "]"⟩, ⟨.endOfInput, ⟨1, 6⟩, ""⟩, ⟨.bracket, ⟨2, 0⟩, ")"⟩] =
      .error error ∧ error.code = "RB-P005" ∧ error.position = ⟨1, 0⟩ ∧
        ∃ before opened inside,
          [⟨.bracket, ⟨1, 0⟩, "("⟩, ⟨.bracket, ⟨1, 1⟩, "["⟩, ⟨.text, ⟨1, 2⟩, "a"⟩,
            ⟨.bracket, ⟨1, 5⟩, "]"⟩] = before ++ opened :: inside ∧
          error.position = opened.position ∧ ¬HasMatch opened.symbol (Token.symbols inside) := by
  have refused : parse .standard [⟨.bracket, ⟨1, 0⟩, "("⟩, ⟨.bracket, ⟨1, 1⟩, "["⟩,
      ⟨.text, ⟨1, 2⟩, "a"⟩, ⟨.bracket, ⟨1, 5⟩, "]"⟩, ⟨.endOfInput, ⟨1, 6⟩, ""⟩,
      ⟨.bracket, ⟨2, 0⟩, ")"⟩] = .error ⟨⟨1, 0⟩, .unclosedParenthesis⟩ := by
    with_unfolding_all rfl
  obtain ⟨before, opened, inside, split, -, place, unmatched, -⟩ :=
    (parse_blames refused).2.2 rfl
  exact ⟨_, refused, rfl, rfl, before, opened, inside, split, place, unmatched⟩

end Expr

end ExprMachine
