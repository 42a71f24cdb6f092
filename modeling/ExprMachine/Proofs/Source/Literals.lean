/-
  ExprMachine.Proofs.Source.Literals

  Sources that consist of one literal: an integer in any base, a text as it is printed, and
  a 64-bit integer as it is displayed, which a minus sign may precede.
-/
import ExprMachine.Proofs.Bytecode.Constants
import ExprMachine.Proofs.Expr.Embedding
import ExprMachine.Proofs.Expr.Integers
import ExprMachine.Proofs.Machine.Compiled
import ExprMachine.Proofs.Token.Placing
import ExprMachine.Proofs.Token.Widening
import ExprMachine.Proofs.Value.Displayed

namespace ExprMachine

-- ============================================================================
-- Tokens
-- ============================================================================

/-- A lexeme with blanks around it is the only token. -/
theorem Token.scan_alone {keywords : List String} {before lexeme after : List Char}
    {token : Token} (hbefore : ∀ c ∈ before, Text.isBlank c = true)
    (hafter : ∀ c ∈ after, Text.isBlank c = true)
    (place : token.position = Position.start.advanceAll before)
    (lexes : Lexes keywords (lexeme ++ after) token.symbol after) :
    scan keywords (String.ofList (before ++ (lexeme ++ after))) =
      .ok [token, ⟨.endOfInput, Position.start.advanceAll (before ++ (lexeme ++ after)), ""⟩] := by
  have ends : Tokenizes keywords ((Position.start.advanceAll before).advanceAll lexeme) after
      [] [] := by
    rw [← List.append_nil after]
    exact .blanks hafter .done
  have tokenizes : Tokenizes keywords .start
      (String.ofList (before ++ (lexeme ++ after))).toList [token] [] := by
    rw [String.toList_ofList]
    exact .blanks hbefore (.token place lexes ends)
  rw [scan_of_tokenizes tokenizes, String.toList_ofList]
  rfl

/-- No blank is part of a number. -/
theorem head_not_isNumberPart {rest : List Char} (h : ∀ c ∈ rest, Text.isBlank c = true) :
    rest.head?.any Lexeme.isNumberPart = false := by
  cases rest with
  | nil => rfl
  | cons c rest =>
    obtain ⟨part, point, -⟩ := Lexeme.breaks_iff.1
      (Lexeme.breaks_of_isBlank (h c List.mem_cons_self))
    simp [Lexeme.isNumberPart, part, point]

-- ============================================================================
-- Texts
-- ============================================================================

/-- The printed literal of a text stays on one line. -/
theorem Expr.newline_not_mem_textLiteral (text : String) : '\n' ∉ (textLiteral text).toList := by
  have character (c : Char) : '\n' ∉ literalChar c := by
    rcases Lexeme.literalChar_cases c with ⟨hc, -, -, newline, -⟩ | ⟨mark, hc, escaped⟩
    · rw [hc, List.mem_singleton]
      exact newline.symm
    · have printable : mark ≠ '\n' := by
        rintro rfl
        rw [Lexeme.escape?_newline (by decide)] at escaped
        cases escaped
      simp [hc, printable.symm]
  rw [textLiteral, String.toList_ofList, List.mem_cons, List.mem_append, List.mem_flatMap]
  rintro (quote | ⟨c, -, mem⟩ | quote)
  · cases quote
  · exact character c mem
  · cases List.mem_singleton.1 quote

/-- The printed literal of any text is one token that denotes the text. -/
theorem Token.scan_render_text (keywords : List String) (grammar : Grammar)
    (spacing : Expr.Spacing) (text : String) :
    scan keywords ((Expr.text text).render grammar spacing) =
      .ok [⟨.text, .start, text⟩,
        ⟨.endOfInput, ⟨1, ((Expr.text text).render grammar spacing).length⟩, ""⟩] := by
  have lexes := @lexes_textLiteral keywords text []
  have found := @scan_alone keywords [] _ [] ⟨.text, .start, text⟩ (by simp) (by simp) rfl lexes
  rw [List.nil_append, List.append_nil, String.ofList_toList,
    Position.advanceAll_of_not_mem (Expr.newline_not_mem_textLiteral text)] at found
  rw [Expr.render, found, String.length_toList]
  simp [Position.start]

-- ============================================================================
-- Numbers
-- ============================================================================

namespace Parser

theorem expression_of_primary_error {setting : Setting} {levels least : Nat}
    {tokens : List Token} {error : ParseError}
    (h : primary setting (expression setting levels) tokens = .error error) :
    expression setting (levels + 1) least tokens = .error error := by
  rw [expression_succ, h]
  rfl

/-- A number that denotes no literal is refused where it stands. -/
theorem expression_number_error {setting : Setting} {levels least : Nat} {place : Position}
    {lexeme : String} {rest : List Token} {cause : ParseCause}
    (refused : Expr.ofNumber lexeme = .error cause) :
    expression setting (levels + 1) least (⟨.number, place, lexeme⟩ :: rest) =
      .error ⟨place, cause⟩ := by
  apply expression_of_primary_error
  simp only [primary, refused]

theorem expression_unary_error {setting : Setting} {levels least : Nat} {place : Position}
    {symbol : String} {info : OperatorInfo} {rest : List Token} {error : ParseError}
    (known : setting.grammar.unary? symbol = some info)
    (refused : expression setting levels info.priority rest = .error error) :
    expression setting (levels + 1) least (⟨.operator, place, symbol⟩ :: rest) =
      .error error := by
  apply expression_of_primary_error
  simp only [primary, known, refused]

end Parser

namespace Expr

open ExprMachine.Parser

/-- One number token is an expression just when it denotes a literal, and is at fault
    itself where it does not. -/
theorem parse_number (grammar : Grammar) (place stop : Position) (lexeme : String) :
    parse grammar [⟨.number, place, lexeme⟩, ⟨.endOfInput, stop, ""⟩] =
      (ofNumber lexeme).mapError (⟨place, ·⟩) := by
  cases h : ofNumber lexeme with
  | error cause =>
    obtain ⟨levels, hlevels⟩ : ∃ levels, maxDepth = levels + 1 := ⟨255, rfl⟩
    have refused : expression ⟨grammar, endPosition [⟨.number, place, lexeme⟩,
        ⟨.endOfInput, stop, ""⟩]⟩ maxDepth 0 [⟨.number, place, lexeme⟩] =
          .error ⟨place, cause⟩ := by
      rw [hlevels]
      exact expression_number_error h
    rw [parse_eq_bind]
    exact congrArg (·.bind alone) refused
  | ok literal =>
    have denotes := Symbol.literal?_number_iff.2 h
    have nests : Nests grammar 1 (.expression 0 literal)
        (Token.spelt [⟨.number, place, lexeme⟩, ⟨.endOfInput, stop, ""⟩]) [] :=
      .expression (.single (.literal denotes)) rfl
    rcases parse_of_nests nests with ⟨-, parsed⟩ | ⟨unfit, -⟩
    · exact parsed
    · refine absurd ⟨by decide, ?_⟩ unfit
      rw [depth_of_ofNumber h]
      decide

end Expr

namespace Source

theorem expr_of_tokens {source : String} {found : List Token} (h : tokens source = .ok found) :
    expr source = (Expr.parse .standard found).mapError .parse := by
  rw [expr, h]

/-- A number with blanks around it is one token, and the parser's answer is about it. -/
theorem expr_number {before lexeme after : List Char}
    (hbefore : ∀ c ∈ before, Text.isBlank c = true) (hafter : ∀ c ∈ after, Text.isBlank c = true)
    (lexes : Lexes Token.standardKeywords (lexeme ++ after) (.number (String.ofList lexeme))
      after) :
    tokens (String.ofList (before ++ (lexeme ++ after))) =
        .ok [⟨.number, Position.start.advanceAll before, String.ofList lexeme⟩,
          ⟨.endOfInput, Position.start.advanceAll (before ++ (lexeme ++ after)), ""⟩] ∧
      expr (String.ofList (before ++ (lexeme ++ after))) =
        ((Expr.ofNumber (String.ofList lexeme)).mapError
          (⟨Position.start.advanceAll before, ·⟩)).mapError .parse := by
  have found : tokens (String.ofList (before ++ (lexeme ++ after))) =
      .ok [⟨.number, Position.start.advanceAll before, String.ofList lexeme⟩,
        ⟨.endOfInput, Position.start.advanceAll (before ++ (lexeme ++ after)), ""⟩] :=
    tokens_eq_ok_iff.2 (Token.scan_alone hbefore hafter rfl lexes)
  exact ⟨found, by rw [expr_of_tokens found, Expr.parse_number]⟩

/-- An integer literal of any base, with blanks around it, is one token that says the
    literal. It denotes the number that its digits make by position, if 64 bits with a sign
    hold that number, and is out of range at its place if they do not. -/
theorem expr_integer {base : Nat} {values : List Nat} {before literal after : List Char}
    (written : Expr.IsInteger base values literal)
    (hbefore : ∀ c ∈ before, Text.isBlank c = true)
    (hafter : ∀ c ∈ after, Text.isBlank c = true) :
    tokens (String.ofList (before ++ (literal ++ after))) =
        .ok [⟨.number, Position.start.advanceAll before, String.ofList literal⟩,
          ⟨.endOfInput, Position.start.advanceAll (before ++ (literal ++ after)), ""⟩] ∧
      (Expr.positional base values ≤ 2 ^ 63 - 1 →
        ∃ number : Int64, number.toInt = Expr.positional base values ∧
          expr (String.ofList (before ++ (literal ++ after))) = .ok (.int number)) ∧
      (2 ^ 63 - 1 < Expr.positional base values →
        ∃ error : ParseError, error.code = "RB-P006" ∧
          error.position = Position.start.advanceAll before ∧
          expr (String.ofList (before ++ (literal ++ after))) = .error (.parse error)) := by
  obtain ⟨found, parsed⟩ := expr_number hbefore hafter
    (Expr.lexes_of_isInteger written (head_not_isNumberPart hafter))
  rw [Expr.ofNumber_of_isInteger written] at parsed
  refine ⟨found, fun fits => ?_, fun large => ?_⟩
  · refine ⟨.ofInt (Expr.positional base values), ?_, ?_⟩
    · exact Int64.toInt_ofInt_of_le (by omega) (by omega)
    · rw [parsed, if_pos (by omega)]
      rfl
  · refine ⟨⟨Position.start.advanceAll before, .integerOutOfRange (String.ofList literal)⟩,
      rfl, rfl, ?_⟩
    rw [parsed, if_neg (by omega)]
    rfl

/-- The integers `0X_fF` before a space and `0o1_000000000000000000000`, which is 2 ^ 63, on
    a line of its own. -/
theorem expr_integer_bases :
    (∃ number : Int64, number.toInt = 255 ∧ expr "0X_fF " = .ok (.int number)) ∧
      ∃ error : ParseError, error.code = "RB-P006" ∧ error.position = ⟨2, 0⟩ ∧
        expr "\n0o1_000000000000000000000\n" = .error (.parse error) := by
  have hexadecimal : Expr.IsInteger 16 [15, 15] ['0', 'X', '_', 'f', 'F'] := by
    refine .announced (.hexadecimal (.inr rfl)) (.cons ?_ (.cons ?_ .nil)) (by simp)
    · exact ⟨by decide, .inl rfl⟩
    · exact ⟨by decide, .inr rfl⟩
  have octal : Expr.IsInteger 8 (1 :: List.replicate 21 0)
      ('0' :: 'o' :: '1' :: '_' :: List.replicate 21 '0') :=
    .announced (.octal (.inl rfl)) (.cons ⟨by decide, .inl rfl⟩ (Text.isDigit_zeros (by decide) 21))
      (by simp)
  have none : ∀ c ∈ [], Text.isBlank c = true := List.forall_mem_nil _
  have space : ∀ c ∈ [' '], Text.isBlank c = true := List.forall_mem_singleton.2 rfl
  have newline : ∀ c ∈ ['\n'], Text.isBlank c = true := List.forall_mem_singleton.2 rfl
  obtain ⟨-, fits, -⟩ := expr_integer hexadecimal none space
  obtain ⟨-, -, large⟩ := expr_integer octal newline newline
  obtain ⟨error, code, position, refused⟩ := large (by simp [Expr.positional, Nat.ofDigits_cons])
  exact ⟨fits (by simp [Expr.positional, Nat.ofDigits_cons]), error, code, position, refused⟩

end Source

-- ============================================================================
-- Integers as they are displayed
-- ============================================================================

/-- The numeral of a number is the only token up to the end of a source. -/
theorem tokenizes_repr (keywords : List String) (place : Position) (number : Nat) :
    Tokenizes keywords place number.repr.toList [⟨.number, place, number.repr⟩] [] := by
  have digits : ∀ d ∈ Nat.toDigits 10 number, d.isDigit = true :=
    fun d hd => Expr.isDigit_of_mem_decimal hd
  have lexes := @lexes_integer keywords _ [] Nat.toDigits_ne_nil digits rfl
  rw [← Nat.toList_repr, String.ofList_toList] at lexes
  rw [← List.append_nil number.repr.toList]
  exact .token rfl lexes .done

namespace Expr

open ExprMachine.Parser

/-- A minus sign before a number token negates the literal that the token denotes. -/
theorem parse_minus_number (place next stop : Position) (lexeme : String) :
    parse .standard [⟨.operator, place, "-"⟩, ⟨.number, next, lexeme⟩, ⟨.endOfInput, stop, ""⟩] =
      ((ofNumber lexeme).map (.unary "-")).mapError (⟨next, ·⟩) := by
  cases h : ofNumber lexeme with
  | error cause =>
    obtain ⟨levels, hlevels⟩ : ∃ levels, maxDepth = levels + 2 := ⟨254, rfl⟩
    have refused : expression ⟨.standard, endPosition [⟨.operator, place, "-"⟩,
        ⟨.number, next, lexeme⟩, ⟨.endOfInput, stop, ""⟩]⟩ maxDepth 0
          [⟨.operator, place, "-"⟩, ⟨.number, next, lexeme⟩] = .error ⟨next, cause⟩ := by
      rw [hlevels]
      exact expression_unary_error rfl (expression_number_error h)
    rw [parse_eq_bind]
    exact congrArg (·.bind alone) refused
  | ok literal =>
    have denotes := Symbol.literal?_number_iff.2 h
    have nests : Nests .standard 2 (.expression 0 (.unary "-" literal))
        (Token.spelt [⟨.operator, place, "-"⟩, ⟨.number, next, lexeme⟩,
          ⟨.endOfInput, stop, ""⟩]) [] := by
      refine .expression (.single (.operand (.unary rfl ?_) rfl)) rfl
      exact .expression (.single (.literal denotes)) rfl
    rcases parse_of_nests nests with ⟨-, parsed⟩ | ⟨unfit, -⟩
    · exact parsed
    · refine absurd ⟨by decide, ?_⟩ unfit
      rw [depth, depth_of_ofNumber h]
      decide

end Expr

namespace Source

theorem eq_minValue_iff (value : Int64) :
    value = Int64.minValue ↔ value.toInt = -(2 ^ 63) := by
  rw [← Int64.toInt_inj, Int64.toInt_minValue]

/-- The tree of a 64-bit integer as it is displayed: the literal itself, or a minus sign
    before a literal. The size of the least one is out of range. -/
theorem expr_display (value : Int64) :
    expr (Value.int value).display =
      if value = Int64.minValue then
        .error (.parse ⟨⟨1, 1⟩, .integerOutOfRange "9223372036854775808"⟩)
      else if 0 ≤ value.toInt then .ok (.int value)
      else .ok (.unary "-" (.int (-value))) := by
  have below := value.toInt_lt
  have above := value.le_toInt
  have literal := Expr.ofNumber_repr value.toInt.natAbs
  by_cases nonneg : 0 ≤ value.toInt
  · have notLeast : value ≠ Int64.minValue := by
      rw [ne_eq, eq_minValue_iff]
      omega
    have size : (value.toInt.natAbs : Int) = value.toInt := by omega
    rw [if_pos (by omega), size, Int64.ofInt_toInt] at literal
    have found := tokens_eq_ok_iff.2 (Token.scan_of_tokenizes
      (tokenizes_repr Token.standardKeywords .start value.toInt.natAbs))
    rw [if_neg notLeast, if_pos nonneg, Value.display_of_nonneg nonneg, expr_of_tokens found,
      List.singleton_append, Expr.parse_number, literal]
    rfl
  · have negative : value.toInt < 0 := by omega
    have tokenizes : Tokenizes Token.standardKeywords .start
        ("-" ++ value.toInt.natAbs.repr).toList
          [⟨.operator, .start, "-"⟩, ⟨.number, ⟨1, 1⟩, value.toInt.natAbs.repr⟩] [] := by
      rw [String.toList_append]
      exact .token rfl (.lone rfl) (tokenizes_repr _ _ _)
    have found := tokens_eq_ok_iff.2 (Token.scan_of_tokenizes tokenizes)
    rw [Value.display_of_neg negative, expr_of_tokens found, List.cons_append,
      List.singleton_append, Expr.parse_minus_number, literal, if_neg nonneg]
    by_cases least : value = Int64.minValue
    · have size : value.toInt.natAbs = 2 ^ 63 := by
        have := (eq_minValue_iff value).1 least
        omega
      rw [if_pos least, size, if_neg (by omega)]
      rfl
    · have size : value.toInt.natAbs < 2 ^ 63 := by
        have := mt (eq_minValue_iff value).2 least
        omega
      have negated : Int64.ofInt value.toInt.natAbs = -value := by
        rw [show (value.toInt.natAbs : Int) = -value.toInt by omega, Int64.ofInt_neg,
          Int64.ofInt_toInt]
      rw [if_neg least, if_pos size, negated]
      rfl

theorem evaluate_of_expr_error (context : Context) {source : String} {failure : Failure}
    (h : expr source = .error failure) : evaluate context source = .error failure := by
  rw [evaluate, chunk, h]

/-- A source whose tree is compiled has the value of the tree. -/
theorem evaluate_of_expr (context : Context) {source : String} {tree : Expr}
    (h : expr source = .ok tree) (fits : tree.listsFit = true) (supported : tree.supported = true)
    (slots : Constant.slotsFor tree.uses ≤ maxConstants) :
    evaluate context source = (tree.eval context).mapError .run := by
  obtain ⟨chunk, compiled⟩ := Expr.exists_compile_iff.2 ⟨supported, slots⟩
  have hchunk : Source.chunk source = .ok chunk := by
    rw [Source.chunk, h]
    exact congrArg (·.mapError Failure.compile) compiled
  rw [evaluate, hchunk]
  exact congrArg (·.mapError Failure.run) (Machine.run_eq_eval fits compiled)

/-- Every 64-bit integer but the least one is the value of the text that displays it, in
    every context. The text of the least one has a literal out of range after its sign. -/
theorem evaluate_display (context : Context) (value : Int64) :
    evaluate context (Value.int value).display =
      if value = Int64.minValue then
        .error (.parse ⟨⟨1, 1⟩, .integerOutOfRange "9223372036854775808"⟩)
      else .ok (.int value) := by
  have parsed := expr_display value
  have room (number : Int64) : Constant.slotsFor [.scalar (.int number)] ≤ maxConstants :=
    Nat.le_trans (m := 1) (by rfl) (by decide)
  by_cases least : value = Int64.minValue
  · rw [if_pos least] at parsed ⊢
    exact evaluate_of_expr_error context parsed
  · rw [if_neg least] at parsed ⊢
    by_cases nonneg : 0 ≤ value.toInt
    · rw [if_pos nonneg] at parsed
      exact evaluate_of_expr context parsed rfl rfl (room value)
    · rw [if_neg nonneg] at parsed
      have size : (-value).toInt ≠ -(2 ^ 63) := by
        have below := value.toInt_lt
        have above := value.le_toInt
        have notLeast := mt (eq_minValue_iff value).2 least
        rw [Int64.toInt_neg, Int.bmod_eq_of_le (by omega) (by omega)]
        omega
      have negated : context.applyUnary "-" (.int (-value)) = .ok (.int value) := by
        rw [Context.applyUnary, if_neg (by decide), if_pos rfl, Value.negate, if_neg size,
          Int64.neg_neg]
      rw [evaluate_of_expr context parsed rfl rfl (room (-value))]
      exact congrArg (·.mapError Failure.run) negated

/-- The least integer is displayed as a text that no context gives a value. -/
theorem evaluate_display_least :
    (Value.int Int64.minValue).display = "-9223372036854775808" ∧
      ∀ context, ∃ error : ParseError, error.code = "RB-P006" ∧
        evaluate context "-9223372036854775808" = .error (.parse error) := by
  have displayed : (Value.int Int64.minValue).display = "-9223372036854775808" := rfl
  refine ⟨displayed, fun context => ?_⟩
  have parsed := expr_display Int64.minValue
  rw [if_pos rfl, displayed] at parsed
  exact ⟨_, rfl, evaluate_of_expr_error context parsed⟩

end Source

end ExprMachine
