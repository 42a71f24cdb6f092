/-
  ExprMachine.Proofs.Expr.Parsed

  Trees that are read from the symbols of a source can be spelt: names are words, indexes
  are in canonical form, and numbers have no sign.
-/
import ExprMachine.Proofs.Expr.Floats
import ExprMachine.Proofs.Expr.Spelling

namespace ExprMachine

-- ============================================================================
-- Symbols of a source
-- ============================================================================

/-- Whether a symbol stands somewhere in a source. -/
def Symbol.Lexed (keywords : List String) (symbol : Symbol) : Prop :=
  ∃ source rest, Lexes keywords source symbol rest

theorem Scans.lexed {keywords : List String} {source : List Char} {symbols : List Symbol}
    (h : Scans keywords source symbols) : ∀ symbol ∈ symbols, symbol.Lexed keywords := by
  induction h with
  | nil => simp
  | blank _ _ ih => exact ih
  | token lexes _ ih =>
    intro symbol hmem
    rcases List.mem_cons.1 hmem with rfl | hmem
    · exact ⟨_, _, lexes⟩
    · exact ih symbol hmem

theorem isWord_of_lexed {keywords : List String} {name : String}
    (h : (Symbol.word name).Lexed keywords) : IsWord keywords name := by
  obtain ⟨source, rest, h⟩ := h
  generalize hsymbol : Symbol.word name = symbol at h
  cases h with
  | @word c source word rest opens hword hrest unknown =>
    cases hsymbol
    have part := Token.isWordPart_of_isWordStart opens
    rw [List.takeWhile_cons_of_pos part] at hword
    subst hword
    exact ⟨c, _, String.toList_ofList, opens, fun d hd =>
      List.all_eq_true.1 List.all_takeWhile d hd, unknown⟩
  | _ => cases hsymbol

theorem exists_number_of_lexed {keywords : List String} {value : String}
    (h : (Symbol.number value).Lexed keywords) :
    ∃ c source rest, (c.isDigit = true ∨ c = '.') ∧
      Lexeme.number (c :: source) = .ok (value.toList, rest) := by
  obtain ⟨source, rest, h⟩ := h
  generalize hsymbol : Symbol.number value = symbol at h
  cases h with
  | number opens read =>
    cases hsymbol
    exact ⟨_, _, rest, opens.imp_right And.left, by rw [String.toList_ofList]; exact read⟩
  | _ => cases hsymbol

theorem unsigned_of_lexed {keywords : List String} {value : String}
    (h : (Symbol.number value).Lexed keywords) : '-' ∉ value.toList := by
  obtain ⟨_, _, _, opens, read⟩ := exists_number_of_lexed h
  intro minus
  have part : Lexeme.isNumberPart '-' = true := Lexeme.numberParts_of_number opens read '-' minus
  exact absurd part (by decide)

-- ============================================================================
-- Trees of a source
-- ============================================================================

/-- Whether the operators of a grammar are ones that the scanner knows. -/
structure Grammar.Spelt (grammar : Grammar) (keywords : List String) : Prop where
  unary : ∀ symbol, (grammar.unary? symbol).isSome = true →
    IsOperator keywords symbol ∧ Lexeme.endsOperator symbol.toList = true
  binary : ∀ symbol, (grammar.binary? symbol).isSome = true → IsOperator keywords symbol
  separates : grammar.separates = true

/-- Whether the trees of a phrase can be spelt. -/
def Phrase.Spellable (grammar : Grammar) (keywords : List String) : Phrase → Prop
  | .expression _ expr | .chain _ expr | .operand expr | .stem expr =>
    ExprMachine.Spellable grammar keywords expr
  | .sequence _ exprs | .items _ exprs =>
    ∀ expr ∈ exprs, ExprMachine.Spellable grammar keywords expr

theorem spellable_of_literal? {grammar : Grammar} {keywords : List String} {symbol : Symbol}
    {expr : Expr} (lexed : symbol.Lexed keywords) (h : symbol.literal? = some expr) :
    Spellable grammar keywords expr := by
  obtain ⟨kind, value⟩ := symbol
  cases kind with
  | identifier =>
    simp only [Symbol.literal?] at h
    split at h
    · cases h
      exact .bool
    split at h
    · cases h
      exact .bool
    split at h
    · cases h
      exact .nil
    · cases h
  | number =>
    have hnumber := Symbol.literal?_number_iff.1 h
    rcases Expr.cases_of_ofNumber (unsigned_of_lexed lexed) hnumber with
      ⟨_, rfl, positive⟩ | ⟨_, rfl, positive⟩
    · exact .int positive
    · exact .float positive
  | text =>
    cases h
    exact .text
  | _ => cases h

theorem spellable_indexes {grammar : Grammar} {keywords : List String} {path : List String}
    {expr : Expr} (h : Spellable grammar keywords expr)
    (indexes : ∀ index ∈ path, Expr.IsIndex index) :
    Spellable grammar keywords (path.foldl .property expr) := by
  induction path generalizing expr with
  | nil => exact h
  | cons index path ih =>
    exact ih (.property h (.inr (indexes index (by simp)))) fun other hother =>
      indexes other (by simp [hother])

theorem isIndex_of_indexPath {lexeme : String} {path : List String}
    (h : Expr.indexPath lexeme = some path) : ∀ index ∈ path, Expr.IsIndex index := by
  unfold Expr.indexPath at h
  generalize (lexeme.toList.drop 1).splitOn '.' = segments at h
  induction segments generalizing path with
  | nil =>
    cases h
    simp
  | cons segment segments ih =>
    rw [List.mapM_cons] at h
    obtain ⟨index, hindex, h⟩ := Option.bind_eq_some_iff.1 h
    obtain ⟨rest, hrest, h⟩ := Option.bind_eq_some_iff.1 h
    cases h
    intro other hother
    rcases List.mem_cons.1 hother with rfl | hother
    · exact Expr.isIndex_of_ofIndex hindex
    · exact ih hrest other hother

/-- What is read from the symbols of a source can be spelt, and leaves some of these
    symbols. -/
theorem Reads.spellable {grammar : Grammar} {keywords : List String}
    (spelt : grammar.Spelt keywords) {phrase : Phrase} {symbols rest : List Symbol}
    (h : Reads grammar phrase symbols rest) (lexed : ∀ symbol ∈ symbols, symbol.Lexed keywords) :
    phrase.Spellable grammar keywords ∧ ∀ symbol ∈ rest, symbol.Lexed keywords := by
  induction h with
  | expression _ _ ih => exact ih lexed
  | single _ ih => exact ih lexed
  | binary _ known _ _ ihLeft ihRight =>
    obtain ⟨left, lexed⟩ := ihLeft lexed
    obtain ⟨-, lexed⟩ := List.forall_mem_cons.1 lexed
    obtain ⟨right, lexed⟩ := ihRight lexed
    have known := Option.isSome_of_eq_some known
    exact ⟨.binary known (spelt.binary _ known) left right, lexed⟩
  | literal denotes =>
    obtain ⟨symbol, lexed⟩ := List.forall_mem_cons.1 lexed
    exact ⟨spellable_of_literal? symbol denotes, lexed⟩
  | operand _ _ ih => exact ih lexed
  | unary known _ ih =>
    obtain ⟨-, lexed⟩ := List.forall_mem_cons.1 lexed
    obtain ⟨operand, lexed⟩ := ih lexed
    have known := Option.isSome_of_eq_some known
    obtain ⟨shape, apart⟩ := spelt.unary _ known
    exact ⟨.unary known shape apart operand, lexed⟩
  | parentheses _ ih =>
    obtain ⟨-, lexed⟩ := List.forall_mem_cons.1 lexed
    obtain ⟨inner, lexed⟩ := ih lexed
    obtain ⟨-, lexed⟩ := List.forall_mem_cons.1 lexed
    exact ⟨inner, lexed⟩
  | list _ ih =>
    obtain ⟨-, lexed⟩ := List.forall_mem_cons.1 lexed
    obtain ⟨items, lexed⟩ := ih lexed
    exact ⟨.list spelt.separates items, lexed⟩
  | name plain =>
    obtain ⟨word, lexed⟩ := List.forall_mem_cons.1 lexed
    exact ⟨.identifier ⟨isWord_of_lexed word, plain⟩, lexed⟩
  | call _ _ ihStem ihSequence =>
    obtain ⟨stem, lexed⟩ := ihStem lexed
    obtain ⟨-, lexed⟩ := List.forall_mem_cons.1 lexed
    obtain ⟨arguments, lexed⟩ := ihSequence lexed
    cases stem with
    | identifier word => exact ⟨.call spelt.separates word arguments, lexed⟩
  | property _ _ ih =>
    obtain ⟨receiver, lexed⟩ := ih lexed
    obtain ⟨-, lexed⟩ := List.forall_mem_cons.1 lexed
    obtain ⟨word, lexed⟩ := List.forall_mem_cons.1 lexed
    exact ⟨.property receiver (.inl (isWord_of_lexed word)), lexed⟩
  | method _ _ ihStem ihSequence =>
    obtain ⟨receiver, lexed⟩ := ihStem lexed
    obtain ⟨-, lexed⟩ := List.forall_mem_cons.1 lexed
    obtain ⟨word, lexed⟩ := List.forall_mem_cons.1 lexed
    obtain ⟨-, lexed⟩ := List.forall_mem_cons.1 lexed
    obtain ⟨arguments, lexed⟩ := ihSequence lexed
    exact ⟨.methodCall spelt.separates receiver (isWord_of_lexed word) arguments, lexed⟩
  | indexes _ _ denotes ih =>
    obtain ⟨receiver, lexed⟩ := ih lexed
    obtain ⟨-, lexed⟩ := List.forall_mem_cons.1 lexed
    exact ⟨spellable_indexes receiver (isIndex_of_indexPath denotes), lexed⟩
  | empty =>
    obtain ⟨-, lexed⟩ := List.forall_mem_cons.1 lexed
    exact ⟨by simp [Phrase.Spellable], lexed⟩
  | sequence _ ih => exact ih lexed
  | last _ _ ih =>
    obtain ⟨item, lexed⟩ := ih lexed
    obtain ⟨-, lexed⟩ := List.forall_mem_cons.1 lexed
    exact ⟨List.forall_mem_singleton.2 item, lexed⟩
  | item _ _ _ ihItem ihItems =>
    obtain ⟨item, lexed⟩ := ihItem lexed
    obtain ⟨-, lexed⟩ := List.forall_mem_cons.1 lexed
    obtain ⟨items, lexed⟩ := ihItems lexed
    exact ⟨List.forall_mem_cons.2 ⟨item, items⟩, lexed⟩

end ExprMachine
