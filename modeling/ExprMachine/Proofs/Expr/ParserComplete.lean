/-
  ExprMachine.Proofs.Expr.ParserComplete

  Whatever can be read the parser accepts, with the same tree and the same tokens left
  over, if it opens no more levels than the parser has and the tree is no deeper than
  the limit; else the parser refuses it for that reason alone. So two readings of the
  same tokens that the parser accepts are one.
-/
import ExprMachine.Proofs.Expr.Depth
import ExprMachine.Proofs.Expr.Nesting
import ExprMachine.Proofs.Expr.ParserSound

namespace ExprMachine

open Reading

namespace Parser

open Token

-- ============================================================================
-- Results
-- ============================================================================

/-- The reader meets a limit. -/
def Refuses {α : Type} (result : Except ParseError α) : Prop :=
  ∃ error, result = .error error ∧ error.cause = .nestedTooDeeply

/-- The reader gave this tree with its depth and left these symbols. -/
structure Parsed.Is {tokens : List Token} (parsed : Parsed tokens) (expr : Expr)
    (rest : List Symbol) : Prop where
  expr_eq : parsed.expr = expr
  depth_eq : parsed.depth = expr.depth
  rest_eq : symbols parsed.rest = rest

/-- The reader gave these trees with the depth of the deepest and left these symbols. -/
structure ParsedSequence.Are {tokens : List Token} (parsed : ParsedSequence tokens)
    (exprs : List Expr) (rest : List Symbol) : Prop where
  exprs_eq : parsed.exprs = exprs
  depth_eq : parsed.depth = Expr.depthAll exprs
  rest_eq : symbols parsed.rest = rest

/-- The reader gives this tree and leaves these symbols if that is within its limits, and
    refuses else. -/
def Delivers (fits : Prop) {tokens : List Token} (result : Except ParseError (Parsed tokens))
    (expr : Expr) (rest : List Symbol) : Prop :=
  (fits ∧ ∃ parsed, result = .ok parsed ∧ parsed.Is expr rest) ∨ (¬ fits ∧ Refuses result)

/-- The same for a sequence. -/
def DeliversAll (fits : Prop) {tokens : List Token}
    (result : Except ParseError (ParsedSequence tokens)) (exprs : List Expr)
    (rest : List Symbol) : Prop :=
  (fits ∧ ∃ parsed, result = .ok parsed ∧ parsed.Are exprs rest) ∨ (¬ fits ∧ Refuses result)

/-- The reader comes to this tree with these symbols left and lets it grow further, up to
    the place of a refusal, if that is within its limits, and refuses else. -/
def Grows (fits : Prop) {tokens : List Token} (growth : Growth)
    (result : Except ParseError (Parsed tokens)) (expr : Expr) (rest : List Symbol) : Prop :=
  (fits ∧ ∃ left, left.Is expr rest ∧
      (result = growFrom growth left ∨ Refuses result ∧ Refuses (growFrom growth left))) ∨
    (¬ fits ∧ Refuses result)

/-- A piece makes the tree this larger one and leaves these symbols if that is within the
    limits of the reader, and is refused else. -/
def Piece (fits : Prop) {tokens : List Token} (result : Except ParseError (Option (Parsed tokens)))
    (larger : Expr) (rest : List Symbol) : Prop :=
  (fits ∧ ∃ parsed, result = .ok (some parsed) ∧ parsed.Is larger rest) ∨
    (¬ fits ∧ Refuses result)

/-- What can be read the reader delivers, if it opens no more than so many levels and the
    tree is no deeper than the limit. -/
def Complete (grammar : Grammar) (levels : Nat) (operand : Reader) : Prop :=
  ∀ {n least expr rest} tokens,
    Nests grammar n (.expression least expr) (symbols tokens) rest →
      Delivers (n ≤ levels ∧ expr.depth ≤ maxDepth) (operand least tokens) expr rest

/-- A tree within the limit of depth is given, a deeper one is refused. -/
theorem limited_cases {tokens : List Token} {parsed : Parsed tokens} {expr : Expr}
    {rest : List Symbol} (place : Position) (h : parsed.Is expr rest) :
    expr.depth ≤ maxDepth ∧ limited tokens place parsed = .ok parsed ∨
      ¬ expr.depth ≤ maxDepth ∧
        limited tokens place parsed = .error ⟨place, .nestedTooDeeply⟩ := by
  rw [← h.depth_eq]
  unfold limited
  split
  · exact .inr ⟨by omega, rfl⟩
  · exact .inl ⟨by omega, rfl⟩

theorem exists_of_symbols_cons {tokens : List Token} {symbol : Symbol} {rest : List Symbol}
    (h : symbols tokens = symbol :: rest) :
    ∃ token after, tokens = token :: after ∧ token.symbol = symbol ∧ symbols after = rest := by
  cases tokens with
  | nil => cases h
  | cons token after =>
    obtain ⟨hsymbol, hrest⟩ := List.cons.inj h
    exact ⟨token, after, rfl, hsymbol, hrest⟩

/-- A tree that no further piece follows is delivered. -/
theorem Grows.delivers {fits : Prop} {growth : Growth} {tokens : List Token}
    {result : Except ParseError (Parsed tokens)} {expr : Expr} {rest : List Symbol}
    (h : Grows fits growth result expr rest)
    (done : ∀ depth tokens, symbols tokens = rest → growth expr depth tokens = .ok none) :
    Delivers fits result expr rest := by
  rcases h with ⟨hfits, left, is, hresult⟩ | refused
  · have grown : growFrom growth left = .ok left :=
      growFrom_none (by rw [is.expr_eq]; exact done _ _ is.rest_eq)
    rw [grown] at hresult
    rcases hresult with rfl | ⟨-, error, herror, -⟩
    · exact .inl ⟨hfits, left, rfl, is⟩
    · cases herror
  · exact .inr refused

/-- One more piece. -/
theorem Grows.step {fits fits' : Prop} {growth : Growth} {tokens : List Token}
    {result : Except ParseError (Parsed tokens)} {expr larger : Expr}
    {between rest : List Symbol} (h : Grows fits growth result expr between)
    (weaker : fits' → fits)
    (piece : fits → ∀ tokens, symbols tokens = between →
      Piece fits' (growth expr expr.depth tokens) larger rest) :
    Grows fits' growth result larger rest := by
  rcases h with ⟨hfits, left, ⟨rfl, hdepth, hbetween⟩, hresult⟩ | ⟨hfits, refused⟩
  · have hpiece := piece hfits left.rest hbetween
    rw [← hdepth] at hpiece
    rcases hpiece with ⟨hfits', parsed, hparsed, is⟩ | ⟨hfits', error, herror, hcause⟩
    · rw [growFrom_some hparsed] at hresult
      exact .inl ⟨hfits', _, ⟨is.expr_eq, is.depth_eq, is.rest_eq⟩, hresult⟩
    · rw [growFrom_error herror] at hresult
      rcases hresult with rfl | ⟨refused, -⟩
      · exact .inr ⟨hfits', error, rfl, hcause⟩
      · exact .inr ⟨hfits', refused⟩
  · exact .inr ⟨fun h => hfits (weaker h), refused⟩

-- ============================================================================
-- Sequences
-- ============================================================================

section Completeness

variable {setting : Setting} {levels : Nat} {operand : Reader}
  (complete : Complete setting.grammar levels operand)
include complete

theorem sequenceFrom_complete {n : Nat} {kind : SequenceKind} {opened : Position}
    {all : List Token} {found : Array Expr} {depth : Nat} {tokens : List Token}
    {exprs : List Expr} {rest : List Symbol} (inside : tokens.length ≤ all.length)
    (hdepth : depth = Expr.depthAll found.toList)
    (h : Nests setting.grammar n (.items kind exprs) (symbols tokens) rest) :
    DeliversAll (n ≤ levels ∧ Expr.depthAll exprs ≤ maxDepth)
      (sequenceFrom setting operand kind opened found depth tokens inside)
      (found.toList ++ exprs) rest := by
  generalize hphrase : Phrase.items kind exprs = phrase at h
  generalize hsymbols : symbols tokens = start at h
  induction h generalizing exprs tokens found depth with
  | last plain expression _ =>
    cases hphrase
    subst hsymbols
    unfold sequenceFrom
    rw [if_neg (mt isOperator_current.1 plain)]
    rcases complete tokens expression with ⟨fits, item, hitem, is⟩ | ⟨fits, error, herror, hcause⟩
    · obtain ⟨token, after, hafter, hclose, hrest⟩ := exists_of_symbols_cons is.rest_eq
      simp only [hitem]
      split
      · simp_all
      · rename_i heq
        obtain ⟨rfl, rfl⟩ := List.cons.inj (hafter.symm.trans heq)
        rw [if_pos (Token.isBracket_iff.2 hclose)]
        refine .inl ⟨by simpa [Expr.depthAll] using fits, _, rfl, ⟨by simp [is.expr_eq], ?_, hrest⟩⟩
        simp [Expr.depthAll_append, Expr.depthAll, hdepth, is.depth_eq]
    · simp only [herror]
      exact .inr ⟨by simpa [Expr.depthAll] using fits, error, rfl, hcause⟩
  | @item m n kind expr exprs symbols between rest plain expression items _ ih =>
    cases hphrase
    subst hsymbols
    unfold sequenceFrom
    rw [if_neg (mt isOperator_current.1 plain)]
    rcases complete tokens expression with ⟨fits, item, hitem, is⟩ | ⟨fits, error, herror, hcause⟩
    · obtain ⟨token, after, hafter, hcomma, hrest⟩ := exists_of_symbols_cons is.rest_eq
      simp only [hitem]
      split
      · simp_all
      · rename_i heq
        obtain ⟨rfl, rfl⟩ := List.cons.inj (hafter.symm.trans heq)
        have notClose : ¬ token.isBracket kind.close = true := by
          rw [Token.isBracket_iff, hcomma]
          simp
        have noTrailing : ¬ (setting.current after).isBracket kind.close = true := by
          rw [isBracket_current, hrest]
          obtain ⟨first, more, rfl, hfirst, -⟩ := items.reads.exists_first rfl
          simpa using hfirst kind
        rw [if_neg notClose, if_pos (Token.isOperator_iff.2 hcomma), if_neg noTrailing]
        have hlt := item.rest_lt
        rw [hafter, List.length_cons] at hlt
        have others := @ih (found.push item.expr) (max depth item.depth) after _ (by omega)
          (by simp [Expr.depthAll_append, Expr.depthAll, hdepth, is.depth_eq, is.expr_eq]) rfl hrest
        have hiff : (max m n ≤ levels ∧ Expr.depthAll (expr :: exprs) ≤ maxDepth) ↔
            (n ≤ levels ∧ Expr.depthAll exprs ≤ maxDepth) := by
          rw [Expr.depthAll]
          omega
        rw [hiff]
        simpa [is.expr_eq] using others
    · simp only [herror]
      refine .inr ⟨fun h => fits ?_, error, rfl, hcause⟩
      simp only [Expr.depthAll] at h
      omega
  | _ => cases hphrase

theorem sequence_complete {n : Nat} {kind : SequenceKind} {tokens : List Token}
    {exprs : List Expr} {rest : List Symbol} (opened : Position)
    (h : Nests setting.grammar n (.sequence kind exprs) (symbols tokens) rest) :
    DeliversAll (n ≤ levels ∧ Expr.depthAll exprs ≤ maxDepth)
      (sequence setting operand kind opened tokens) exprs rest := by
  unfold sequence
  split
  · cases h with
    | sequence items => exact sequenceFrom_complete complete _ rfl items
  · rename_i token after
    generalize hsymbols : symbols (token :: after) = start at h
    cases h with
    | empty =>
      obtain ⟨hclose, hrest⟩ := List.cons.inj hsymbols
      rw [if_pos (Token.isBracket_iff.2 hclose)]
      exact .inl ⟨⟨Nat.zero_le _, Nat.zero_le _⟩, _, rfl, ⟨rfl, rfl, hrest⟩⟩
    | sequence items =>
      obtain ⟨first, more, hfirst, hne, -⟩ := items.reads.exists_first rfl
      have notClose : ¬ token.isBracket kind.close = true := by
        rw [Token.isBracket_iff]
        have := hsymbols.trans hfirst
        rw [symbols_cons] at this
        rw [(List.cons.inj this).1]
        exact hne kind
      rw [if_neg notClose]
      subst hsymbols
      exact sequenceFrom_complete complete _ rfl items

theorem arguments_complete {n : Nat} {tokens : List Token} {arguments : List Expr}
    {between rest : List Symbol} (opens : symbols tokens = .bracket "(" :: between)
    (h : Nests setting.grammar n (.sequence .arguments arguments) between rest) :
    ((n ≤ levels ∧ Expr.depthAll arguments ≤ maxDepth) ∧
      ∃ parsed, arguments? setting operand tokens = .ok (some parsed) ∧
        parsed.Are arguments rest) ∨
    (¬ (n ≤ levels ∧ Expr.depthAll arguments ≤ maxDepth) ∧
      Refuses (arguments? setting operand tokens)) := by
  obtain ⟨token, after, rfl, hopen, rfl⟩ := exists_of_symbols_cons opens
  unfold arguments?
  simp only [Token.isBracket_iff.2 hopen, if_true]
  rcases sequence_complete complete token.position h with
    ⟨fits, parsed, hparsed, are⟩ | ⟨fits, error, herror, hcause⟩
  · exact .inl ⟨fits, _, by rw [hparsed]; rfl, ⟨are.exprs_eq, are.depth_eq, are.rest_eq⟩⟩
  · exact .inr ⟨fits, error, by rw [herror]; rfl, hcause⟩

theorem unary_complete {n : Nat} {token : Token} {tokens : List Token} {symbol : String}
    {info : OperatorInfo} {expr : Expr} {rest : List Symbol}
    (hsymbol : token.symbol = .operator symbol) (known : setting.grammar.unary? symbol = some info)
    (expression :
      Nests setting.grammar n (.expression info.priority expr) (symbols tokens) rest) :
    Grows (n ≤ levels ∧ (Expr.unary symbol expr).depth ≤ maxDepth) (part? setting operand)
      (primary setting operand (token :: tokens)) (.unary symbol expr) rest := by
  obtain ⟨hkind, rfl⟩ : token.kind = .operator ∧ token.value = symbol := by
    simpa [Token.symbol] using hsymbol
  have hdepth : (Expr.unary token.value expr).depth = expr.depth + 1 := rfl
  unfold primary
  simp only [hkind, known]
  rcases complete tokens expression with
    ⟨fits, inner, hinner, rfl, inner_depth, hrest⟩ | ⟨fits, error, herror, hcause⟩
  · simp only [hinner]
    have is : Parsed.Is (⟨.unary token.value inner.expr, inner.depth + 1, inner.rest,
        Nat.lt_succ_of_lt inner.rest_lt⟩ : Parsed (token :: tokens))
        (.unary token.value inner.expr) rest := ⟨rfl, by rw [inner_depth]; rfl, hrest⟩
    rcases limited_cases token.position is with ⟨shallow, h⟩ | ⟨deep, h⟩
    · simp only [h]
      exact .inl ⟨⟨fits.1, shallow⟩, _, is, .inl rfl⟩
    · simp only [h]
      exact .inr ⟨fun h => deep h.2, _, rfl, rfl⟩
  · simp only [herror]
    exact .inr ⟨fun h => fits ⟨h.1, by omega⟩, error, rfl, hcause⟩

theorem parentheses_complete {n : Nat} {token : Token} {tokens : List Token} {expr : Expr}
    {rest : List Symbol} (hsymbol : token.symbol = .bracket "(")
    (expression :
      Nests setting.grammar n (.expression 0 expr) (symbols tokens) (.bracket ")" :: rest)) :
    Grows (n ≤ levels ∧ expr.depth ≤ maxDepth) (part? setting operand)
      (primary setting operand (token :: tokens)) expr rest := by
  obtain ⟨hkind, hvalue⟩ : token.kind = .bracket ∧ token.value = "(" := by
    simpa [Token.symbol] using hsymbol
  unfold primary parenthesised
  simp only [hkind, hvalue, if_true]
  rcases complete tokens expression with
    ⟨fits, inner, hinner, rfl, inner_depth, hrest⟩ | ⟨fits, error, herror, hcause⟩
  · obtain ⟨close, after, hafter, hclose, hrest⟩ := exists_of_symbols_cons hrest
    simp only [hinner]
    split
    · simp_all
    · rename_i heq
      obtain ⟨rfl, rfl⟩ := List.cons.inj (hafter.symm.trans heq)
      rw [if_pos (Token.isBracket_iff.2 hclose)]
      exact .inl ⟨fits, _, ⟨rfl, inner_depth, hrest⟩, .inl rfl⟩
  · simp only [herror]
    exact .inr ⟨fits, error, rfl, hcause⟩

theorem list_complete {n : Nat} {token : Token} {tokens : List Token} {items : List Expr}
    {rest : List Symbol} (hsymbol : token.symbol = .bracket "[")
    (sequence : Nests setting.grammar n (.sequence .items items) (symbols tokens) rest) :
    Grows (n ≤ levels ∧ (Expr.list items).depth ≤ maxDepth) (part? setting operand)
      (primary setting operand (token :: tokens)) (.list items) rest := by
  obtain ⟨hkind, hvalue⟩ : token.kind = .bracket ∧ token.value = "[" := by
    simpa [Token.symbol] using hsymbol
  have hdepth : (Expr.list items).depth = Expr.depthAll items + 1 := rfl
  unfold primary
  simp only [hkind, hvalue, show ("[" = "(") = False by decide, if_false, if_true]
  rcases sequence_complete complete token.position sequence with
    ⟨fits, parsed, hparsed, rfl, parsed_depth, hrest⟩ | ⟨fits, error, herror, hcause⟩
  · simp only [hparsed]
    have is : Parsed.Is (⟨.list parsed.exprs, parsed.depth + 1, parsed.rest,
        Nat.lt_succ_of_lt parsed.rest_lt⟩ : Parsed (token :: tokens)) (.list parsed.exprs)
        rest := ⟨rfl, by rw [parsed_depth]; rfl, hrest⟩
    rcases limited_cases token.position is with ⟨shallow, h⟩ | ⟨deep, h⟩
    · simp only [h]
      exact .inl ⟨⟨fits.1, shallow⟩, _, is, .inl rfl⟩
    · simp only [h]
      exact .inr ⟨fun h => deep h.2, _, rfl, rfl⟩
  · simp only [herror]
    exact .inr ⟨fun h => fits ⟨h.1, by omega⟩, error, rfl, hcause⟩

end Completeness

/-- Arguments after a bare name are its next piece. -/
theorem part_identifier {setting : Setting} {operand : Reader} {name : String} {depth : Nat}
    {token : Token} {after : List Token} (opens : token.symbol = .bracket "(") :
    part? setting operand (.identifier name) depth (token :: after) =
      match arguments? setting operand (token :: after) with
      | .error error => .error error
      | .ok (some arguments) =>
        (limited (token :: after) token.position
          ⟨.call name arguments.exprs, arguments.depth + 1, arguments.rest,
            arguments.rest_lt⟩).map some
      | .ok none => .ok none := by
  obtain ⟨hkind, -⟩ : token.kind = .bracket ∧ token.value = "(" := by
    simpa [Token.symbol] using opens
  have notPoint : ¬ token.isOperator "." = true := by
    rw [Token.isOperator_iff, opens]
    simp
  have notNumber : ¬ (token.kind = .number ∧ token.value.toList.head? = some '.') := by
    simp [hkind]
  simp only [part?]
  rewrite [if_neg notPoint, if_neg notNumber]
  rfl

/-- A bare name grows to the call that the parser makes at once. -/
theorem growFrom_identifier {setting : Setting} {operand : Reader} {token first : Token}
    {after : List Token} {arguments : ParsedSequence (first :: after)}
    (opens : first.symbol = .bracket "(")
    (harguments : arguments? setting operand (first :: after) = .ok (some arguments))
    (fits : ¬ maxDepth < arguments.depth + 1) :
    growFrom (part? setting operand)
        (⟨.identifier token.value, 1, first :: after, Nat.lt_succ_self _⟩ :
          Parsed (token :: first :: after)) =
      withParts setting operand
        (⟨.call token.value arguments.exprs, arguments.depth + 1, arguments.rest,
          Nat.lt_succ_of_lt arguments.rest_lt⟩ : Parsed (token :: first :: after)) := by
  have hpart := @part_identifier setting operand token.value 1 first after opens
  simp only [harguments, limited, if_neg fits, Except.map] at hpart
  rw [growFrom_some hpart]
  rfl

/-- A name comes to itself even where arguments follow: the call that the parser makes
    at once is the first piece by which the name grows. -/
theorem name_complete {setting : Setting} {levels : Nat} {operand : Reader} {token : Token}
    {tokens : List Token} {name : String} (hsymbol : token.symbol = .word name)
    (plain : Symbol.literal? (.word name) = none) :
    Grows (0 ≤ levels ∧ (Expr.identifier name).depth ≤ maxDepth) (part? setting operand)
      (primary setting operand (token :: tokens)) (.identifier name) (symbols tokens) := by
  obtain ⟨hkind, rfl⟩ : token.kind = .identifier ∧ token.value = name := by
    simpa [Token.symbol] using hsymbol
  obtain ⟨notTrue, notFalse, notNil⟩ :
      token.value ≠ "true" ∧ token.value ≠ "false" ∧ token.value ≠ "nil" := by
    simp only [Symbol.literal?] at plain
    grind
  have fits : 0 ≤ levels ∧ (Expr.identifier token.value).depth ≤ maxDepth :=
    ⟨Nat.zero_le _, by simp [Expr.depth, maxDepth]⟩
  let bare : Parsed (token :: tokens) :=
    ⟨.identifier token.value, 1, tokens, Nat.lt_succ_self _⟩
  refine .inl ⟨fits, bare, ⟨rfl, rfl, rfl⟩, ?_⟩
  unfold primary wordOperand
  simp only [hkind, if_neg notTrue, if_neg notFalse, if_neg notNil]
  cases opens : opensArguments (symbols tokens) with
  | false =>
    rw [arguments_none.2 opens]
    exact .inl rfl
  | true =>
    obtain ⟨first, after, rfl, hfirst⟩ : ∃ first after, tokens = first :: after ∧
        first.symbol = .bracket "(" := by
      cases tokens with
      | nil => simp [opensArguments] at opens
      | cons first after => exact ⟨first, after, rfl, by simpa [opensArguments] using opens⟩
    have hpart := @part_identifier setting operand token.value 1 first after hfirst
    cases harguments : arguments? setting operand (first :: after) with
    | error error =>
      simp only [harguments] at hpart ⊢
      exact .inl (growFrom_error hpart).symm
    | ok arguments =>
      cases arguments with
      | none =>
        rw [arguments_none.1 harguments] at opens
        cases opens
      | some arguments =>
        by_cases deep : maxDepth < arguments.depth + 1
        · -- both are refused, but at different tokens
          simp only [harguments, limited, if_pos deep] at hpart ⊢
          exact .inr ⟨⟨_, rfl, rfl⟩, _, growFrom_error hpart, rfl⟩
        · simp only [limited, if_neg deep]
          exact .inl (growFrom_identifier hfirst harguments deep).symm

/-- A tree within the limit of depth is given, a deeper one is refused. -/
theorem piece_of_limited {fits : Prop} {tokens : List Token} {place : Position}
    {parsed : Parsed tokens} {expr : Expr} {rest : List Symbol} (is : parsed.Is expr rest)
    (shallow : fits ↔ expr.depth ≤ maxDepth) :
    Piece fits ((limited tokens place parsed).map some) expr rest := by
  rcases limited_cases place is with ⟨hdepth, h⟩ | ⟨hdepth, h⟩
  · rw [h]
    exact .inl ⟨shallow.2 hdepth, parsed, rfl, is⟩
  · rw [h]
    exact .inr ⟨mt shallow.1 hdepth, _, rfl, rfl⟩

theorem property_complete {fits : Prop} {setting : Setting} {operand : Reader} {left : Expr}
    {tokens : List Token} {name : String} {rest : List Symbol}
    (hsymbols : symbols tokens = .operator "." :: .word name :: rest)
    (done : opensArguments rest = false)
    (shallow : fits ↔ (Expr.property left name).depth ≤ maxDepth) :
    Piece fits (part? setting operand left left.depth tokens) (.property left name) rest := by
  obtain ⟨point, tokens, rfl, hpoint, hsymbols⟩ := exists_of_symbols_cons hsymbols
  obtain ⟨word, after, rfl, hword, rfl⟩ := exists_of_symbols_cons hsymbols
  obtain ⟨hkind, rfl⟩ : word.kind = .identifier ∧ word.value = name := by
    simpa [Token.symbol] using hword
  simp only [part?, Token.isOperator_iff.2 hpoint, hkind, if_true, arguments_none.2 done]
  exact piece_of_limited ⟨rfl, rfl, rfl⟩ shallow

theorem indexes_complete {fits : Prop} {setting : Setting} {operand : Reader} {left : Expr}
    {tokens : List Token} {value : String} {path : List String} {rest : List Symbol}
    (hsymbols : symbols tokens = .number value :: rest)
    (point : (Symbol.number value).isIndexes = true) (denotes : Expr.indexPath value = some path)
    (shallow : fits ↔ (path.foldl .property left).depth ≤ maxDepth) :
    Piece fits (part? setting operand left left.depth tokens) (path.foldl .property left)
      rest := by
  obtain ⟨token, after, rfl, hnumber, rfl⟩ := exists_of_symbols_cons hsymbols
  obtain ⟨hkind, rfl⟩ : token.kind = .number ∧ token.value = value := by
    simpa [Token.symbol] using hnumber
  have notPoint : ¬ token.isOperator "." = true := by
    rw [Token.isOperator_iff, hnumber]
    simp
  have isNumber : token.kind = .number ∧ token.value.toList.head? = some '.' := by
    simpa [Symbol.isIndexes, hkind] using point
  simp only [part?]
  rw [if_neg notPoint, if_pos isNumber]
  simp only [denotes]
  exact piece_of_limited ⟨rfl, (Expr.depth_foldl_property path left).symm, rfl⟩ shallow

section Completeness

variable {setting : Setting} {levels : Nat} {operand : Reader}
  (complete : Complete setting.grammar levels operand)
include complete

theorem method_complete {m n : Nat} {left : Expr} {tokens : List Token} {name : String}
    {arguments : List Expr} {between rest : List Symbol}
    (hsymbols : symbols tokens = .operator "." :: .word name :: .bracket "(" :: between)
    (sequence : Nests setting.grammar n (.sequence .arguments arguments) between rest)
    (fits : m ≤ levels ∧ left.depth ≤ maxDepth) :
    Piece (max m n ≤ levels ∧ (Expr.methodCall left name arguments).depth ≤ maxDepth)
      (part? setting operand left left.depth tokens) (.methodCall left name arguments) rest := by
  obtain ⟨point, tokens, rfl, hpoint, hsymbols⟩ := exists_of_symbols_cons hsymbols
  obtain ⟨word, after, rfl, hword, hafter⟩ := exists_of_symbols_cons hsymbols
  obtain ⟨hkind, rfl⟩ : word.kind = .identifier ∧ word.value = name := by
    simpa [Token.symbol] using hword
  have hdepth : (Expr.methodCall left word.value arguments).depth =
      max left.depth (Expr.depthAll arguments) + 1 := rfl
  simp only [part?, Token.isOperator_iff.2 hpoint, hkind, if_true]
  rcases arguments_complete complete hafter sequence with
    ⟨fitsArguments, parsed, hparsed, rfl, parsed_depth, hrest⟩ |
      ⟨fitsArguments, error, herror, hcause⟩
  · simp only [hparsed]
    refine piece_of_limited ⟨rfl, ?_, hrest⟩ ?_
    · rw [hdepth, parsed_depth]
    · omega
  · simp only [herror]
    exact .inr ⟨by omega, error, rfl, hcause⟩

theorem call_complete {m n : Nat} {name : String} {tokens : List Token} {arguments : List Expr}
    {between rest : List Symbol} (hsymbols : symbols tokens = .bracket "(" :: between)
    (sequence : Nests setting.grammar n (.sequence .arguments arguments) between rest)
    (fits : m ≤ levels) :
    Piece (max m n ≤ levels ∧ (Expr.call name arguments).depth ≤ maxDepth)
      (part? setting operand (.identifier name) (Expr.identifier name).depth tokens)
      (.call name arguments) rest := by
  obtain ⟨token, after, rfl, hopen, -⟩ := exists_of_symbols_cons hsymbols
  have hdepth : (Expr.call name arguments).depth = Expr.depthAll arguments + 1 := rfl
  rw [part_identifier hopen]
  rcases arguments_complete complete hsymbols sequence with
    ⟨fitsArguments, parsed, hparsed, rfl, parsed_depth, hrest⟩ |
      ⟨fitsArguments, error, herror, hcause⟩
  · simp only [hparsed]
    refine piece_of_limited ⟨rfl, ?_, hrest⟩ ?_
    · rw [hdepth, parsed_depth]
    · omega
  · simp only [herror]
    exact .inr ⟨by omega, error, rfl, hcause⟩

theorem stem_complete {n : Nat} {tokens : List Token} {expr : Expr} {rest : List Symbol}
    (h : Nests setting.grammar n (.stem expr) (symbols tokens) rest) :
    Grows (n ≤ levels ∧ expr.depth ≤ maxDepth) (part? setting operand)
      (primary setting operand tokens) expr rest := by
  generalize hphrase : Phrase.stem expr = phrase at h
  generalize hsymbols : symbols tokens = start at h
  induction h generalizing expr with
  | unary known expression _ =>
    cases hphrase
    obtain ⟨token, tokens, rfl, hsymbol, rfl⟩ := exists_of_symbols_cons hsymbols
    exact unary_complete complete hsymbol known expression
  | parentheses expression _ =>
    cases hphrase
    obtain ⟨token, tokens, rfl, hsymbol, rfl⟩ := exists_of_symbols_cons hsymbols
    exact parentheses_complete complete hsymbol expression
  | list sequence _ =>
    cases hphrase
    obtain ⟨token, tokens, rfl, hsymbol, rfl⟩ := exists_of_symbols_cons hsymbols
    exact list_complete complete hsymbol sequence
  | name plain =>
    cases hphrase
    obtain ⟨token, tokens, rfl, hsymbol, rfl⟩ := exists_of_symbols_cons hsymbols
    exact name_complete hsymbol plain
  | call _ sequence ih _ =>
    cases hphrase
    refine (ih rfl hsymbols).step (fun h => ?_) fun fits _ h =>
      call_complete complete h sequence fits.1
    have hone : (1 : Nat) ≤ maxDepth := by decide
    exact ⟨by omega, hone⟩
  | property _ done ih =>
    cases hphrase
    refine (ih rfl hsymbols).step (fun h => ?_) fun fits _ h => property_complete h done ?_
    · simp only [Expr.depth] at h
      omega
    · omega
  | method _ sequence ih _ =>
    cases hphrase
    refine (ih rfl hsymbols).step (fun h => ?_) fun fits _ h =>
      method_complete complete h sequence fits
    simp only [Expr.depth] at h
    omega
  | indexes _ point denotes ih =>
    cases hphrase
    refine (ih rfl hsymbols).step (fun h => ?_) fun fits _ h =>
      indexes_complete h point denotes ?_
    · rw [Expr.depth_foldl_property] at h
      omega
    · omega
  | _ => cases hphrase

omit complete in
theorem leaf_complete {token : Token} {tokens : List Token} {expr : Expr}
    (leaf : expr.depth = 1) :
    Delivers (0 ≤ levels ∧ expr.depth ≤ maxDepth)
      (.ok (⟨expr, 1, tokens, Nat.lt_succ_self _⟩ : Parsed (token :: tokens))) expr
      (symbols tokens) := by
  have hone : (1 : Nat) ≤ maxDepth := by decide
  exact .inl ⟨⟨Nat.zero_le _, by omega⟩, _, rfl, ⟨rfl, leaf.symm, rfl⟩⟩

omit complete in
theorem literal_complete {token : Token} {tokens : List Token} {expr : Expr}
    (denotes : token.symbol.literal? = some expr) :
    Delivers (0 ≤ levels ∧ expr.depth ≤ maxDepth) (primary setting operand (token :: tokens))
      expr (symbols tokens) := by
  rw [Token.symbol] at denotes
  simp only [Symbol.literal?] at denotes
  unfold primary
  split at denotes
  · rename_i hkind
    simp only [hkind, wordOperand]
    by_cases isTrue : token.value = "true"
    · rw [if_pos isTrue] at denotes ⊢
      cases denotes
      exact leaf_complete rfl
    rw [if_neg isTrue] at denotes ⊢
    by_cases isFalse : token.value = "false"
    · rw [if_pos isFalse] at denotes ⊢
      cases denotes
      exact leaf_complete rfl
    rw [if_neg isFalse] at denotes ⊢
    by_cases isNil : token.value = "nil"
    · rw [if_pos isNil] at denotes ⊢
      cases denotes
      exact leaf_complete rfl
    · rw [if_neg isNil] at denotes
      cases denotes
  · rename_i hkind
    simp only [hkind]
    cases hvalue : Expr.ofNumber token.value with
    | error cause => simp [hvalue, Except.toOption] at denotes
    | ok literal =>
      simp only [hvalue, Except.toOption, Option.some.injEq] at denotes
      subst denotes
      exact leaf_complete (Expr.depth_of_ofNumber hvalue)
  · rename_i hkind
    simp only [hkind]
    cases denotes
    exact leaf_complete rfl
  · cases denotes

theorem primary_complete {n : Nat} {tokens : List Token} {expr : Expr} {rest : List Symbol}
    (h : Nests setting.grammar n (.operand expr) (symbols tokens) rest) :
    Delivers (n ≤ levels ∧ expr.depth ≤ maxDepth) (primary setting operand tokens) expr rest := by
  generalize hsymbols : symbols tokens = start at h
  cases h with
  | literal denotes =>
    obtain ⟨token, tokens, rfl, rfl, rfl⟩ := exists_of_symbols_cons hsymbols
    exact literal_complete denotes
  | operand stem done =>
    subst hsymbols
    refine (stem_complete complete stem).delivers fun depth tokens h => ?_
    rw [part_none, h]
    exact done

theorem binary_complete {m n least : Nat} {left right : Expr} {tokens : List Token}
    {symbol : String} {info : OperatorInfo} {between rest : List Symbol}
    (hsymbols : symbols tokens = .operator symbol :: between)
    (known : setting.grammar.binary? symbol = some info) (binds : least ≤ info.priority)
    (expression : Nests setting.grammar n (.expression info.rightBound right) between rest)
    (fits : m ≤ levels ∧ left.depth ≤ maxDepth) :
    Piece (max m n ≤ levels ∧ (Expr.binary symbol left right).depth ≤ maxDepth)
      (infixOperand? setting operand least left left.depth tokens) (.binary symbol left right)
      rest := by
  obtain ⟨token, after, rfl, hsymbol, rfl⟩ := exists_of_symbols_cons hsymbols
  obtain ⟨hkind, rfl⟩ : token.kind = .operator ∧ token.value = symbol := by
    simpa [Token.symbol] using hsymbol
  have hbinds : ¬ info.priority < least := by omega
  have hdepth : (Expr.binary token.value left right).depth = max left.depth right.depth + 1 := rfl
  simp only [infixOperand?, hkind, known, if_true, if_neg hbinds]
  rcases complete after expression with
    ⟨fitsRight, parsed, hparsed, rfl, parsed_depth, hrest⟩ | ⟨fitsRight, error, herror, hcause⟩
  · simp only [hparsed]
    refine piece_of_limited ⟨rfl, ?_, hrest⟩ ?_
    · rw [hdepth, parsed_depth]
    · omega
  · simp only [herror]
    exact .inr ⟨by omega, error, rfl, hcause⟩

theorem chain_complete {n least : Nat} {tokens : List Token} {expr : Expr} {rest : List Symbol}
    {result : Except ParseError (Parsed tokens)}
    (hresult : result = (primary setting operand tokens).bind
      (growFrom (infixOperand? setting operand least)))
    (h : Nests setting.grammar n (.chain least expr) (symbols tokens) rest) :
    Grows (n ≤ levels ∧ expr.depth ≤ maxDepth) (infixOperand? setting operand least) result expr
      rest := by
  generalize hphrase : Phrase.chain least expr = phrase at h
  generalize hsymbols : symbols tokens = start at h
  induction h generalizing expr with
  | single operand _ =>
    cases hphrase
    subst hsymbols
    rw [hresult]
    rcases primary_complete complete operand with
      ⟨fits, left, hleft, is⟩ | ⟨fits, error, herror, hcause⟩
    · rw [hleft]
      exact .inl ⟨fits, left, is, .inl rfl⟩
    · rw [herror]
      exact .inr ⟨fits, error, rfl, hcause⟩
  | binary _ known binds right ihLeft _ =>
    cases hphrase
    refine (ihLeft rfl hsymbols).step (fun h => ?_) fun fits _ h =>
      binary_complete complete h known binds right fits
    simp only [Expr.depth] at h
    omega
  | _ => cases hphrase

end Completeness

theorem expression_complete (setting : Setting) (levels : Nat) :
    Complete setting.grammar levels (expression setting levels) := by
  induction levels with
  | zero =>
    intro n least expr rest tokens h
    cases h with
    | expression => exact .inr ⟨by omega, _, rfl, rfl⟩
  | succ levels ih =>
    intro n least expr rest tokens h
    cases h with
    | @expression n _ _ _ _ read done =>
      have hiff : (n + 1 ≤ levels + 1 ∧ expr.depth ≤ maxDepth) ↔
          (n ≤ levels ∧ expr.depth ≤ maxDepth) := by omega
      rw [hiff]
      refine (chain_complete ih (expression_succ setting levels least tokens) read).delivers
        fun depth tokens h => ?_
      rw [infixOperand_none, h]
      exact done

end Parser

end ExprMachine
