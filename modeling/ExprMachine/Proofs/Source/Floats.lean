/-
  ExprMachine.Proofs.Source.Floats

  The literals of a tree are made by symbols of its source, each by one of them, and every
  number of the source makes one unless it is a path of indexes. So the floats of a tree are
  finite just when no decimal numeral of the source exceeds all floats.
-/
import ExprMachine.Proofs.Bytecode.Coverage
import ExprMachine.Proofs.Expr.FloatRange
import ExprMachine.Proofs.Source.Literals

namespace ExprMachine

open ExprMachine.Expr

-- ============================================================================
-- Literals of a tree
-- ============================================================================

namespace Expr

/-- The literals of one token in a tree, from left to right. -/
def literals (expr : Expr) : List Expr :=
  expr.nodes.filter isLiteral

/-- These literals in some trees. -/
def literalsAll (exprs : List Expr) : List Expr :=
  (nodesAll exprs).filter isLiteral

theorem literals_binary (symbol : String) (left right : Expr) :
    (binary symbol left right).literals = left.literals ++ right.literals :=
  List.filter_append ..

theorem literals_methodCall (receiver : Expr) (name : String) (arguments : List Expr) :
    (methodCall receiver name arguments).literals = receiver.literals ++ literalsAll arguments :=
  List.filter_append ..

theorem literalsAll_cons (expr : Expr) (exprs : List Expr) :
    literalsAll (expr :: exprs) = expr.literals ++ literalsAll exprs :=
  List.filter_append ..

theorem literals_indexes (expr : Expr) (path : List String) :
    (path.foldl .property expr).literals = expr.literals := by
  induction path generalizing expr with
  | nil => rfl
  | cons index path ih => exact ih (.property expr index)

theorem literals_of_literal? {symbol : Symbol} {expr : Expr} (h : symbol.literal? = some expr) :
    expr.literals = [expr] := by
  have literal := isLiteral_of_literal? h
  cases expr with
  | bool | nil | float | int | text => rfl
  | _ => cases literal

end Expr

/-- The literals in the trees of a phrase. -/
def Phrase.literals : Phrase → List Expr
  | .expression _ expr | .chain _ expr | .operand expr | .stem expr => expr.literals
  | .sequence _ exprs | .items _ exprs => literalsAll exprs

-- ============================================================================
-- Literals come from symbols
-- ============================================================================

/-- `Yields symbols rest literals`: of the symbols before these that are left, some make these
    literals, in order, and the others are no numbers but paths of indexes. -/
inductive Yields : List Symbol → List Symbol → List Expr → Prop where
  | nil {rest} : Yields rest rest []
  | literal {symbol expr symbols rest exprs} (denotes : Symbol.literal? symbol = some expr)
      (more : Yields symbols rest exprs) : Yields (symbol :: symbols) rest (expr :: exprs)
  | other {symbol symbols rest exprs}
      (plain : symbol.kind = .number → symbol.isIndexes = true)
      (more : Yields symbols rest exprs) : Yields (symbol :: symbols) rest exprs

namespace Yields

variable {symbols between rest : List Symbol} {exprs others : List Expr}

theorem trans (h : Yields symbols between exprs) (h' : Yields between rest others) :
    Yields symbols rest (exprs ++ others) := by
  induction h with
  | nil => exact h'
  | literal denotes _ ih => exact .literal denotes (ih h')
  | other plain _ ih => exact .other plain (ih h')

/-- The next symbol makes no literal. -/
theorem skip {symbol : Symbol} (h : Yields symbols (symbol :: rest) exprs)
    (plain : symbol.kind = .number → symbol.isIndexes = true) : Yields symbols rest exprs := by
  have skipped := h.trans (.other plain .nil)
  rwa [List.append_nil] at skipped

theorem exists_symbol (h : Yields symbols rest exprs) :
    ∀ expr ∈ exprs, ∃ symbol ∈ symbols, symbol.literal? = some expr := by
  induction h with
  | nil => exact List.forall_mem_nil _
  | literal denotes _ ih =>
    refine List.forall_mem_cons.2 ⟨⟨_, List.mem_cons_self, denotes⟩, fun expr mem => ?_⟩
    obtain ⟨symbol, mem, denotes⟩ := ih expr mem
    exact ⟨symbol, List.mem_cons_of_mem _ mem, denotes⟩
  | other _ _ ih =>
    intro expr mem
    obtain ⟨symbol, mem, denotes⟩ := ih expr mem
    exact ⟨symbol, List.mem_cons_of_mem _ mem, denotes⟩

/-- No number is left out that is neither left over nor a path of indexes. -/
theorem number_cases (h : Yields symbols rest exprs) :
    ∀ symbol ∈ symbols, symbol.kind = .number →
      symbol ∈ rest ∨ symbol.isIndexes = true ∨ ∃ expr ∈ exprs, symbol.literal? = some expr := by
  induction h with
  | nil => exact fun symbol mem _ => .inl mem
  | literal denotes _ ih =>
    refine List.forall_mem_cons.2
      ⟨fun _ => .inr (.inr ⟨_, List.mem_cons_self, denotes⟩), fun symbol mem number => ?_⟩
    rcases ih symbol mem number with left | path | ⟨expr, mem, denotes⟩
    · exact .inl left
    · exact .inr (.inl path)
    · exact .inr (.inr ⟨expr, List.mem_cons_of_mem _ mem, denotes⟩)
  | other plain _ ih =>
    exact List.forall_mem_cons.2 ⟨fun number => .inr (.inl (plain number)), ih⟩

end Yields

/-- The symbols that a phrase is read from make its literals. -/
theorem Reads.yields {grammar : Grammar} {phrase : Phrase} {symbols rest : List Symbol}
    (h : Reads grammar phrase symbols rest) : Yields symbols rest phrase.literals := by
  induction h with
  | expression _ _ ih => exact ih
  | single _ ih => exact ih
  | binary _ _ _ _ ihLeft ihRight =>
    rw [Phrase.literals, literals_binary]
    exact ihLeft.trans (.other nofun ihRight)
  | literal denotes =>
    rw [Phrase.literals, literals_of_literal? denotes]
    exact .literal denotes .nil
  | operand _ _ ih => exact ih
  | unary _ _ ih => exact .other nofun ih
  | parentheses _ ih => exact .other nofun (ih.skip nofun)
  | list _ ih => exact .other nofun ih
  | name => exact .other nofun .nil
  | call _ _ ihStem ihSequence => exact ihStem.trans (.other nofun ihSequence)
  | property _ _ ih => exact (ih.skip nofun).skip nofun
  | method _ _ ihStem ihSequence =>
    rw [Phrase.literals, literals_methodCall]
    exact ((ihStem.skip nofun).skip nofun).trans (.other nofun ihSequence)
  | indexes _ point _ ih =>
    rw [Phrase.literals, literals_indexes]
    exact ih.skip fun _ => point
  | empty => exact .other nofun .nil
  | sequence _ ih => exact ih
  | last _ _ ih =>
    rw [Phrase.literals, literalsAll_cons]
    exact ih.trans (.other nofun .nil)
  | item _ _ _ ihItem ihItems =>
    rw [Phrase.literals, literalsAll_cons]
    exact ihItem.trans (.other nofun ihItems)

/-- Only a number makes a float. -/
theorem exists_number_of_literal? {symbol : Symbol} {bits : UInt64}
    (h : symbol.literal? = some (.float bits)) :
    ∃ lexeme, symbol = .number lexeme ∧ ofNumber lexeme = .ok (.float bits) := by
  obtain ⟨kind, lexeme⟩ := symbol
  cases kind with
  | number => exact ⟨lexeme, rfl, Symbol.literal?_number_iff.1 h⟩
  | identifier =>
    simp only [Symbol.literal?] at h
    split at h
    · cases h
    split at h
    · cases h
    split at h
    · cases h
    · cases h
  | _ => cases h

-- ============================================================================
-- Floats of a source
-- ============================================================================

namespace Source

open Binary64 (isFinite)

variable {source : String} {all : List Token} {tree : Expr}

/-- Every literal of a source that is parsed is made by a token, and every number token is a
    path of indexes or makes a literal. -/
theorem literals_of_expr (found : tokens source = .ok all) (parsed : expr source = .ok tree) :
    (∀ literal ∈ tree.literals, ∃ token ∈ all,
      token.symbol.Lexed Token.standardKeywords ∧ token.symbol.literal? = some literal) ∧
    ∀ token ∈ all, token.kind = .number → token.symbol.isIndexes = true ∨
      ∃ literal ∈ tree.literals, token.symbol.literal? = some literal := by
  obtain ⟨others, scanned, hparse⟩ := expr_eq_ok_iff.1 parsed
  cases found.symm.trans (tokens_eq_ok_iff.2 scanned)
  have yields : Yields (Token.spelt all) [] tree.literals := (reads_of_parse hparse).yields
  have lexed := (Token.scans_of_scan scanned).lexed
  have hsymbols := Token.symbols_of_scan scanned
  refine ⟨fun literal mem => ?_, fun token mem number => ?_⟩
  · obtain ⟨symbol, mem, denotes⟩ := yields.exists_symbol literal mem
    have among : symbol ∈ Token.symbols all := by
      rw [hsymbols]
      exact List.mem_append_left _ mem
    obtain ⟨token, htoken, rfl⟩ := List.mem_map.1 among
    exact ⟨token, htoken, lexed _ mem, denotes⟩
  · have among : token.symbol ∈ Token.symbols all := List.mem_map_of_mem mem
    rw [hsymbols, List.mem_append, List.mem_singleton] at among
    rcases among with spelt | last
    · exact (yields.number_cases _ spelt number).resolve_left List.not_mem_nil
    · have kind : token.kind = .endOfInput := congrArg Symbol.kind last
      rw [number] at kind
      cases kind

/-- The floats of a source that is parsed are finite just when no decimal numeral among its
    tokens exceeds all floats. -/
theorem isFinite_iff_of_expr (found : tokens source = .ok all) (parsed : expr source = .ok tree) :
    (∀ bits, .float bits ∈ tree.nodes → isFinite (.ofBits bits) = true) ↔
      ∀ token ∈ all, token.kind = .number → ¬ Exceeds token.value := by
  obtain ⟨made, numbers⟩ := literals_of_expr found parsed
  refine ⟨fun finite token mem number exceeds => ?_, fun bounded bits mem => ?_⟩
  · have symbol : token.symbol = .number token.value := by rw [Token.symbol, number]
    rcases numbers token mem number with path | ⟨literal, hliteral, denotes⟩
    · rw [symbol] at path
      exact not_exceeds_of_isIndexes path exceeds
    · obtain ⟨value, hvalue, infinite⟩ := ofNumber_of_exceeds exceeds
      rw [symbol, Symbol.literal?_number_iff, hvalue] at denotes
      cases denotes
      have finite := finite _ (List.mem_filter.1 hliteral).1
      rw [Binary64.ofBits_toBits, infinite] at finite
      cases finite
  · obtain ⟨token, htoken, lexed, denotes⟩ := made _ (List.mem_filter.2 ⟨mem, rfl⟩)
    obtain ⟨lexeme, symbol, hvalue⟩ := exists_number_of_literal? denotes
    rw [symbol] at lexed
    obtain ⟨kind, rfl⟩ := Symbol.mk.inj symbol
    exact (isFinite_iff_of_ofNumber lexed hvalue).2 (bounded token htoken kind)

/-- A number in an announced base is in no source that is parsed unless its digits before the
    point fit 64 bits. -/
theorem positional_lt_of_expr (found : tokens source = .ok all)
    (parsed : expr source = .ok tree) :
    ∀ token ∈ all, token.kind = .number → ∀ base values,
      IsRadixFloat base values token.value.toList → positional base values < 2 ^ 64 := by
  intro token mem number base values written
  have symbol : token.symbol = .number token.value := by rw [Token.symbol, number]
  rcases (literals_of_expr found parsed).2 token mem number with path | ⟨literal, -, denotes⟩
  · have zero : token.value.toList.head? = some '0' := by
      generalize token.value.toList = chars at written
      cases written
      rfl
    rw [symbol, Symbol.isIndexes, zero] at path
    cases path
  · rw [symbol, Symbol.literal?_number_iff] at denotes
    obtain ⟨-, refused⟩ := ofNumber_of_isRadixFloat written
    rw [String.ofList_toList] at refused
    refine Nat.lt_of_not_le fun large => ?_
    cases denotes.symm.trans (refused large)

/-- A number in an announced base, with blanks around it, is a finite float if its digits
    before the point fit 64 bits, and no literal at its place if they do not. -/
theorem expr_radixFloat {base : Nat} {values : List Nat} {before literal after : List Char}
    (written : IsRadixFloat base values literal) (hbefore : ∀ c ∈ before, Text.isBlank c = true)
    (hafter : ∀ c ∈ after, Text.isBlank c = true) :
    (positional base values < 2 ^ 64 → ∃ value, isFinite value = true ∧
      expr (String.ofList (before ++ (literal ++ after))) = .ok (.float value.toBits)) ∧
    (2 ^ 64 ≤ positional base values → ∃ error : ParseError, error.code = "RB-P006" ∧
      error.position = Position.start.advanceAll before ∧
      expr (String.ofList (before ++ (literal ++ after))) = .error (.parse error)) := by
  have word := (endsWord_of_plain (head_not_isNumberPart hafter)).1
  obtain ⟨-, parsed⟩ := expr_number hbefore hafter (lexes_of_isRadixFloat written word)
  obtain ⟨accepted, refused⟩ := ofNumber_of_isRadixFloat written
  refine ⟨fun fits => ?_, fun large => ?_⟩
  · obtain ⟨value, finite, hvalue⟩ := accepted fits
    rw [hvalue] at parsed
    exact ⟨value, finite, parsed⟩
  · rw [refused large] at parsed
    exact ⟨⟨Position.start.advanceAll before, .invalidFloat (String.ofList literal)⟩, rfl, rfl,
      parsed⟩

/-- What is beyond all finite floats is printed as a name. -/
theorem render_of_not_isFinite {bits : UInt64}
    (positive : Binary64.isPositive (.ofBits bits) = true)
    (infinite : isFinite (.ofBits bits) = false)
    (grammar : Grammar) (spacing : Expr.Spacing) :
    (Expr.float bits).render grammar spacing = "inf" := by
  rcases Binary64.cases_of_isPositive positive with ⟨_, _, hread⟩ | hread
  · rw [isFinite, hread] at infinite
    cases infinite
  · rw [Expr.render, Decimal.Layout.text, hread]
    rfl

/-- A decimal numeral that exceeds all floats is parsed all the same, as a float that is
    printed as a name. -/
theorem expr_of_large {whole fraction : List Char} (hwhole : whole ≠ [])
    (hfraction : fraction ≠ []) (digits : ∀ c ∈ whole ++ fraction, c.isDigit = true)
    (large : Decimal.limit * 10 ^ fraction.length ≤ Nat.ofDigitChars 10 (whole ++ fraction) 0) :
    ∃ bits, expr (String.ofList (whole ++ '.' :: fraction)) = .ok (.float bits) ∧
      isFinite (.ofBits bits) = false ∧ (Expr.float bits).render .standard .dense = "inf" := by
  have absent {c : Char} := @not_mem_of_isDigit_or_point _ c (isDigit_or_point digits)
  have exceeds : Exceeds (String.ofList (whole ++ '.' :: fraction)) := by
    refine ⟨whole, fraction, ?_, digits, large⟩
    rw [String.toList_ofList, withoutSeparators_of_not_mem (absent rfl (by decide))]
  obtain ⟨value, hvalue, infinite⟩ := ofNumber_of_exceeds exceeds
  obtain ⟨before, after⟩ := List.forall_mem_append.1 digits
  have lexes : Lexes Token.standardKeywords (whole ++ '.' :: (fraction ++ []))
      (.number (String.ofList (whole ++ '.' :: fraction))) [] :=
    lexes_decimal hwhole before hfraction after rfl
  obtain ⟨-, parsed⟩ := @expr_number [] (whole ++ '.' :: fraction) []
    (List.forall_mem_nil _) (List.forall_mem_nil _) (by simpa using lexes)
  rw [List.nil_append, List.append_nil, hvalue] at parsed
  have unsigned : '-' ∉ (String.ofList (whole ++ '.' :: fraction)).toList := by
    rw [String.toList_ofList]
    exact absent rfl (by decide)
  rcases cases_of_ofNumber unsigned hvalue with ⟨_, int, -⟩ | ⟨_, float, positive⟩
  · cases int
  · cases float
    have beyond : isFinite (.ofBits value.toBits) = false := by
      rw [Binary64.ofBits_toBits]
      exact infinite
    exact ⟨_, parsed, beyond, render_of_not_isFinite positive beyond _ _⟩

/-- The floats of a source that is parsed are finite just when no decimal numeral among its
    tokens exceeds all floats. A number in another base never is a float that is not finite:
    one with too many digits before its point is refused at its place, and stands in no source
    that is parsed. -/
theorem expr_floats (source : String) :
    (∀ tree, expr source = .ok tree → ∃ all, tokens source = .ok all ∧
      ((∀ bits, .float bits ∈ tree.nodes → isFinite (.ofBits bits) = true) ↔
        ∀ token ∈ all, token.kind = .number → ¬ Exceeds token.value) ∧
      ∀ token ∈ all, token.kind = .number → ∀ base values,
        IsRadixFloat base values token.value.toList → positional base values < 2 ^ 64) ∧
    ∀ base values before literal after, source = String.ofList (before ++ (literal ++ after)) →
      IsRadixFloat base values literal →
      (∀ c ∈ before, Text.isBlank c = true) → (∀ c ∈ after, Text.isBlank c = true) →
      (positional base values < 2 ^ 64 →
        ∃ value, isFinite value = true ∧ expr source = .ok (.float value.toBits)) ∧
      (2 ^ 64 ≤ positional base values → ∃ error : ParseError, error.code = "RB-P006" ∧
        error.position = Position.start.advanceAll before ∧
        expr source = .error (.parse error)) := by
  refine ⟨fun tree parsed => ?_, fun base values before literal after written => ?_⟩
  · obtain ⟨all, scanned, -⟩ := expr_eq_ok_iff.1 parsed
    have found := tokens_eq_ok_iff.2 scanned
    exact ⟨all, found, isFinite_iff_of_expr found parsed, positional_lt_of_expr found parsed⟩
  · rw [written]
    exact expr_radixFloat

/-- The number `0xf.8` before a newline, and after a space `0x10000000000000000.8`, where the
    digits before the point are 2 ^ 64. -/
theorem expr_floats_hexadecimal :
    (∃ value all, expr "0xf.8\n" = .ok (.float value.toBits) ∧ isFinite value = true ∧
      tokens "0xf.8\n" = .ok all ∧
      ∀ token ∈ all, token.kind = .number → ¬ Exceeds token.value) ∧
    ∃ error : ParseError, error.code = "RB-P006" ∧ error.position = ⟨1, 1⟩ ∧
      expr " 0x10000000000000000.8" = .error (.parse error) := by
  have digit {c : Char} {value : Nat} (small : value < 16) (hc : c = value.digitChar) :
      Text.IsDigit 16 c value := ⟨small, .inl hc⟩
  have written {values : List Nat} {whole : List Char} (before : HasDigits 16 values whole)
      (nonempty : values ≠ []) :
      IsRadixFloat 16 values ('0' :: 'x' :: (whole ++ ['.', '8'])) :=
    .announced (.hexadecimal (.inl rfl)) before nonempty
      (.cons (@digit _ 8 (by decide) rfl) .nil) rfl
  have fits : IsRadixFloat 16 [15] ('0' :: 'x' :: (['f'] ++ ['.', '8'])) :=
    written (.cons (digit (by decide) rfl) .nil) (by simp)
  have large : IsRadixFloat 16 (1 :: List.replicate 16 0)
      ('0' :: 'x' :: ('1' :: List.replicate 16 '0' ++ ['.', '8'])) :=
    written (.cons (digit (by decide) rfl) (Text.isDigit_zeros (by decide) 16)) (by simp)
  have none : ∀ c ∈ [], Text.isBlank c = true := List.forall_mem_nil _
  have space : ∀ c ∈ [' '], Text.isBlank c = true := List.forall_mem_singleton.2 rfl
  have newline : ∀ c ∈ ['\n'], Text.isBlank c = true := List.forall_mem_singleton.2 rfl
  obtain ⟨sources, literals⟩ := expr_floats "0xf.8\n"
  obtain ⟨value, finite, parsed⟩ := (literals _ _ _ _ _ rfl fits none newline).1 (by decide)
  obtain ⟨error, code, position, refused⟩ :=
    ((expr_floats " 0x10000000000000000.8").2 _ _ _ _ _ rfl large space none).2 (by decide)
  obtain ⟨all, found, floats, -⟩ := sources _ parsed
  refine ⟨⟨value, all, parsed, finite, found, floats.1 fun other mem => ?_⟩, error, code, position,
    refused⟩
  cases List.mem_singleton.1 mem
  rw [Binary64.ofBits_toBits]
  exact finite

/-- The number of 309 nines, with a zero after the point, is parsed as a float that is not
    finite, and that is printed as a name. -/
theorem expr_nines : ∃ bits,
    expr (String.ofList (List.replicate 309 '9' ++ ['.', '0'])) = .ok (.float bits) ∧
      isFinite (.ofBits bits) = false ∧ (Expr.float bits).render .standard .dense = "inf" := by
  have nines : ∀ c ∈ List.replicate 309 '9', c.isDigit = true := fun c mem => by
    rw [List.eq_of_mem_replicate mem]
    rfl
  have zero : ∀ c ∈ ['0'], c.isDigit = true := List.forall_mem_singleton.2 rfl
  have nonempty : List.replicate 309 '9' ≠ [] := List.cons_ne_nil _ _
  exact expr_of_large nonempty (List.cons_ne_nil _ _) (List.forall_mem_append.2 ⟨nines, zero⟩)
    (by decide +kernel)

end Source

end ExprMachine
