/-
  ExprMachine.Proofs.Expr.Reread

  What the symbols of a printed tree are read as. Every printed tree is read as some
  tree, which has the same operators and operands; it is the tree itself exactly when
  the tree is faithful, and then reading it opens the levels of the printed tree.
-/
import ExprMachine.Proofs.Expr.Floats
import ExprMachine.Proofs.Expr.Nesting
import ExprMachine.Proofs.Expr.Spelling

namespace ExprMachine

open ExprMachine.Expr Reading

-- ============================================================================
-- What follows a whole expression
-- ============================================================================

namespace Ends

variable {grammar : Grammar}

theorem comma (separates : grammar.separates = true) {rest : List Symbol} :
    Ends grammar (.operator "," :: rest) := by
  have known : grammar.binary? "," = none := by
    simpa [Grammar.separates] using (Bool.and_eq_true_iff.1 separates).2
  constructor
  · simp [startsPart, opensPart, opensArguments, Symbol.isIndexes]
  · simp [opensInfix, known]

/-- Without an infix operator after it a tree yields. -/
theorem yields {tail : List Symbol} (ends : Ends grammar tail) (expr : Expr) :
    Layout.Yields grammar expr tail := by
  intro symbol more info htail known
  have := ends.noOperator
  simp [htail, opensInfix, known] at this

end Ends

-- ============================================================================
-- Rows
-- ============================================================================

/-- Whether an operand of a row is read from its symbols, whatever follows. -/
def Item.Readable (grammar : Grammar) : Item → Prop
  | .atom symbols _ expr =>
    ∀ tail, startsPart tail = false → Reads grammar (.operand expr) (symbols ++ tail) tail
  | _ => True

/-- Whether an operand of a row, where it is read as it was, opens the levels of its
    printed tree, and one more if it is an operation, which stands in parentheses. An
    infix operator of a row is no point. -/
def Item.Counted (grammar : Grammar) : Item → Prop
  | .atom symbols source expr => expr = source → ∀ tail, startsPart tail = false →
    Nests grammar (levels grammar source + source.isOperation.toNat) (.operand source)
      (symbols ++ tail) tail
  | .between symbol => symbol ≠ "."
  | .before _ => True

namespace Groups

variable {grammar : Grammar}

theorem startsPart_spelling {items : List Item} {tail : List Symbol}
    (turn : Alternates grammar false items) (ends : Ends grammar tail) :
    startsPart (Item.spelling items ++ tail) = false := by
  match items, turn with
  | [], _ => exact ends.noPart
  | .between symbol :: items, turn =>
    have := turn.2.1
    simp [Item.symbols, startsPart, opensPart, opensArguments, Symbol.isIndexes, this]

/-- What precedence climbing makes of a row can be read from its symbols. -/
theorem reads {phrase : Phrase} {items rest : List Item} {tail : List Symbol}
    (h : Groups grammar phrase items rest) (turn : Alternates grammar true items)
    (readable : ∀ item ∈ items, item.Readable grammar) (ends : Ends grammar tail) :
    Reads grammar phrase (Item.spelling items ++ tail) (Item.spelling rest ++ tail) := by
  induction h with
  | @expression least expr items rest chain done ih =>
    refine .expression (ih turn readable) ?_
    match rest, chain.alternates turn, done with
    | [], _, _ => exact ends.opensInfix_eq_false
    | .between symbol :: rest, _, done =>
      simpa [opensInfix, Item.symbols, opensBetween] using done
  | single _ ih => exact .single (ih turn readable)
  | @binary least symbol info left right items between rest chain known binds _ ihLeft ihRight =>
    have hbetween : ∀ item ∈ between, item.Readable grammar := by
      obtain ⟨front, rfl, -⟩ := chain.exists_front
      exact fun item hitem => readable item (by simp [hitem])
    exact .binary (ihLeft turn readable) known binds
      (ihRight (chain.alternates turn).2.2 hbetween)
  | @atom symbols source expr rest =>
    have := readable _ List.mem_cons_self _ (startsPart_spelling turn ends)
    simpa [Item.symbols] using this
  | @unary symbol info expr items rest known expression ih =>
    have := ih turn.2 (fun item hitem => readable item (List.mem_cons_of_mem _ hitem))
    rw [Item.spelling_cons, Item.symbols, List.singleton_append, List.cons_append]
    exact .operand (.unary known this)
      (opensPart_eq_false (startsPart_spelling (expression.alternates turn.2) ends))

end Groups

theorem isOperation_of_wrapsUnder {grammar : Grammar} {priority : Nat} {expr : Expr}
    (h : wrapsUnder grammar priority expr = true) : expr.isOperation = true := by
  cases expr with
  | binary => rfl
  | _ => cases h

theorem isOperation_of_wrapsBeside {grammar : Grammar} {priority : Nat} {onTie : Bool}
    {expr : Expr} (h : wrapsBeside grammar priority onTie expr = true) :
    expr.isOperation = true := by
  cases expr with
  | unary | binary => rfl
  | _ => cases h

theorem isOperation_of_takesParts {expr : Expr} (h : takesParts expr = true) :
    expr.isOperation = false := by
  cases expr with
  | unary | binary => cases h
  | _ => rfl

/-- A tree whose open operators group as they should is what the symbols of its row are
    read as. -/
theorem Layout.nests {grammar : Grammar} {wrapped : Bool} {expr : Expr} {items : List Item}
    {tail : List Symbol} {least : Nat} (consistent : grammar.Consistent)
    (layout : Layout grammar wrapped expr items) (hexact : ∀ item ∈ items, item.Exact)
    (counted : ∀ item ∈ items, item.Counted grammar)
    (hgrouped : (wrapped || grouped grammar expr) = true)
    (operation : wrapped = true → expr.isOperation = true)
    (fits : wrapped = false → Fits grammar least expr)
    (yields : wrapped = false → Yields grammar expr tail) (apart : startsPart tail = false) :
    Nests grammar (levels grammar expr + wrapped.toNat) (.chain least expr)
      (Item.spelling items ++ tail) tail := by
  induction layout generalizing least tail with
  | @wrapped source symbols expr weight =>
    obtain rfl := hexact _ (List.mem_singleton_self _)
    have atom := counted _ (List.mem_singleton_self _) rfl tail apart
    rw [operation rfl] at atom
    simpa [Item.symbols] using Nests.single atom
  | @leaf source symbols expr leaf weight =>
    obtain rfl := hexact _ (List.mem_singleton_self _)
    have atom := counted _ (List.mem_singleton_self _) rfl tail apart
    rw [leaf] at atom
    simpa [Item.symbols] using Nests.single atom
  | @unary symbol info operand items known inner ih =>
    rw [Bool.false_or, grouped, unaryPriority_eq known] at hgrouped
    have hyields := yields rfl
    have hoperand := @ih tail info.priority
      (fun item hitem => hexact item (List.mem_cons_of_mem _ hitem))
      (fun item hitem => counted item (List.mem_cons_of_mem _ hitem)) hgrouped
      isOperation_of_wrapsUnder fits_of_wrapsUnder (hyields.operand known) apart
    have done : opensInfix grammar info.priority tail = false :=
      opensInfix_eq_false fun symbol' more info' htail known' =>
        (hyields.unary known htail known').1
    rw [levels, unaryPriority_eq known]
    exact .single (.operand (.unary known (.expression hoperand done)) (opensPart_eq_false apart))
  | @binary symbol info left right before after known leftInner rightInner ihLeft ihRight =>
    rw [Bool.false_or, grouped, binaryPriority_eq known] at hgrouped
    obtain ⟨groupedLeft, groupedRight⟩ := Bool.and_eq_true_iff.1 hgrouped
    have hyields := yields rfl
    have binds : least ≤ info.priority := fits rfl _ _ _ _ rfl known
    have notPoint : symbol ≠ "." := counted (.between symbol) (by simp)
    have hleft := @ihLeft (.operator symbol :: (Item.spelling after ++ tail)) least
      (fun item hitem => hexact item (List.mem_append_left _ hitem))
      (fun item hitem => counted item (List.mem_append_left _ hitem))
      (by
        revert groupedLeft
        cases wrapsBeside grammar info.priority (groupsRight grammar symbol) left <;> simp)
      isOperation_of_wrapsBeside (fits_left binds)
      (fun hwraps => by
        rw [hwraps] at groupedLeft
        have notSwallows : swallows grammar info.priority left = false := by
          simpa using And.left (by simpa using groupedLeft)
        exact yields_left consistent known notSwallows hwraps)
      (by simp [startsPart, opensPart, opensArguments, Symbol.isIndexes, notPoint])
    have hright := @ihRight tail info.rightBound
      (fun item hitem => hexact item (List.mem_append_right _ (List.mem_cons_of_mem _ hitem)))
      (fun item hitem => counted item (List.mem_append_right _ (List.mem_cons_of_mem _ hitem)))
      groupedRight isOperation_of_wrapsBeside (fits_right known) (hyields.right known) apart
    have done : opensInfix grammar info.rightBound tail = false :=
      opensInfix_eq_false fun symbol' more info' htail known' =>
        (hyields symbol' more info' htail known').2 _ _ _ _ rfl known
    rw [levels, binaryPriority_eq known]
    simp only [Item.spelling_append, Item.spelling_cons, Item.symbols, List.append_assoc,
      List.cons_append]
    exact .binary hleft known binds (.expression hright done)

-- ============================================================================
-- Pieces of the spelling
-- ============================================================================

/-- `NestsIf grammar condition levels phrase symbols rest`: the phrase is read, and it opens so
    many levels if the condition holds. -/
def NestsIf (grammar : Grammar) (condition : Prop) (levels : Nat) (phrase : Phrase)
    (symbols rest : List Symbol) : Prop :=
  ∃ n, Nests grammar n phrase symbols rest ∧ (condition → n = levels)

section Pieces

variable {grammar : Grammar}

/-- A path of indexes makes parts of the tree before it, however the indexes are spelt. -/
theorem nests_indexSymbols {n : Nat} {expr : Expr} {numerals names : List String}
    {symbols rest : List Symbol}
    (h : List.Forall₂ (fun numeral name => ofIndex numeral.toList = some name) numerals names)
    (stem : Nests grammar n (.stem expr) symbols (indexSymbols numerals ++ rest)) :
    Nests grammar n (.stem (names.foldl .property expr)) symbols rest := by
  induction numerals using indexSymbols.induct generalizing expr names with
  | case1 =>
    cases h
    exact stem
  | case2 numeral =>
    obtain ⟨name, _, first, others, rfl⟩ := List.forall₂_cons_left_iff.1 h
    cases others
    exact .indexes stem (by simp [Symbol.isIndexes]) (indexPath_single first)
  | case3 numeral other more ih =>
    obtain ⟨name, _, first, others, rfl⟩ := List.forall₂_cons_left_iff.1 h
    obtain ⟨name', names, second, behind, rfl⟩ := List.forall₂_cons_left_iff.1 others
    have pair : Nests grammar n (.stem (.property (.property expr name) name')) symbols
        (indexSymbols more ++ rest) :=
      .indexes stem (by simp [Symbol.isIndexes]) (indexPath_pair first second)
    exact @ih _ names behind pair

/-- Printed indexes are their own names. -/
theorem ofIndex_indexes {indexes : List String} (h : ∀ index ∈ indexes, IsIndex index) :
    List.Forall₂ (fun numeral name => ofIndex numeral.toList = some name) indexes indexes :=
  List.forall₂_same.2 fun index mem => ofIndex_toList (h index mem)

theorem opensArguments_indexSymbols {indexes : List String} {rest : List Symbol}
    (h : opensArguments rest = false) :
    opensArguments (indexSymbols indexes ++ rest) = false := by
  match indexes with
  | [] => exact h
  | [_] | _ :: _ :: _ => simp [indexSymbols, opensArguments]

/-- An expression in parentheses is an operand. -/
theorem nests_wrap {condition : Prop} {n : Nat} {expr : Expr} {symbols rest : List Symbol}
    (h : ∀ tail, Ends grammar tail →
      NestsIf grammar condition n (.expression 0 expr) (symbols ++ tail) tail) :
    NestsIf grammar condition n (.stem expr) (wrap true symbols ++ rest) rest := by
  obtain ⟨m, inner, hm⟩ := h (.bracket ")" :: rest) (@Ends.close grammar .arguments rest)
  refine ⟨m, ?_, hm⟩
  simp only [wrap, if_true, List.cons_append, List.append_assoc]
  exact .parentheses inner

end Pieces

-- ============================================================================
-- Rereading
-- ============================================================================

/-- `Reread grammar source expr items`: the symbols of the printed source lie in a row
    of operators and operands and are read as the tree, with the levels of the source if
    it is faithful. -/
structure Reread (grammar : Grammar) (source expr : Expr) (items : List Item) : Prop where
  weight : expr.weight = source.weight
  same : expr = source ↔ faithful grammar source = true
  whole : ∀ tail, Ends grammar tail →
    NestsIf grammar (faithful grammar source = true) (levels grammar source + 1)
      (.expression 0 expr) (spell grammar source [] ++ tail) tail
  stem : takesParts source = true → ∀ indexes rest, (∀ index ∈ indexes, IsIndex index) →
    opensArguments rest = false →
      NestsIf grammar (faithful grammar source = true) (levels grammar source)
        (.stem (indexes.foldl .property expr)) (spell grammar source indexes ++ rest) rest
  layout : Layout grammar false source items
  spelling : Item.spelling items = spell grammar source []
  readable : ∀ item ∈ items, item.Readable grammar
  counted : ∀ item ∈ items, item.Counted grammar
  turn : ∀ more, Alternates grammar false more → Alternates grammar true (items ++ more)
  exactly : faithful grammar source = true ↔
    (∀ item ∈ items, item.Exact) ∧ grouped grammar source = true

/-- The symbols of the printed sources of a sequence are read as these trees, with the
    levels of the sources if all are faithful. -/
structure RereadAll (grammar : Grammar) (sources exprs : List Expr) : Prop where
  same : exprs = sources ↔ allFaithful grammar sources = true
  sequence : ∀ (kind : SequenceKind) rest,
    NestsIf grammar (allFaithful grammar sources = true) (levelsAll grammar sources)
      (.sequence kind exprs) ([.operator ","].intercalate (spellAll grammar sources) ++
        .bracket kind.close :: rest) rest

namespace Reread

variable {grammar : Grammar} {source expr : Expr}

/-- A source that is no operation makes a row by itself. -/
theorem ofOperand (leaf : source.isOperation = false) (weight : expr.weight = 1)
    (same : expr = source ↔ faithful grammar source = true)
    (operand : ∀ tail, startsPart tail = false →
      NestsIf grammar (faithful grammar source = true) (levels grammar source) (.operand expr)
        (spell grammar source [] ++ tail) tail)
    (stem : takesParts source = true → ∀ indexes rest, (∀ index ∈ indexes, IsIndex index) →
      opensArguments rest = false →
        NestsIf grammar (faithful grammar source = true) (levels grammar source)
          (.stem (indexes.foldl .property expr)) (spell grammar source indexes ++ rest) rest) :
    Reread grammar source expr [.atom (spell grammar source []) source expr] where
  weight := by
    cases source with
    | unary | binary => cases leaf
    | _ => exact weight
  same := same
  whole tail ends := by
    obtain ⟨n, nests, hn⟩ := operand tail ends.noPart
    exact ⟨n + 1, .expression (.single nests) ends.opensInfix_eq_false, fun h => by rw [hn h]⟩
  stem := stem
  layout := .leaf leaf weight
  spelling := by simp [Item.symbols]
  readable := by
    simp only [List.mem_singleton, forall_eq, Item.Readable]
    intro tail apart
    obtain ⟨n, nests, -⟩ := operand tail apart
    exact nests.reads
  counted := by
    simp only [List.mem_singleton, forall_eq, Item.Counted]
    intro heq tail apart
    obtain ⟨n, nests, hn⟩ := operand tail apart
    rw [leaf, ← heq]
    rw [hn (same.1 heq), ← heq] at nests
    exact nests
  turn more h := by simpa [Alternates] using h
  exactly := by
    have hgrouped : grouped grammar source = true := by
      cases source with
      | unary | binary => cases leaf
      | _ => rfl
    simp [Item.Exact, same, hgrouped]

/-- A source that takes parts is an operand where no further part follows. -/
theorem ofStem (takes : takesParts source = true) (weight : expr.weight = 1)
    (same : expr = source ↔ faithful grammar source = true)
    (stem : ∀ indexes rest, (∀ index ∈ indexes, IsIndex index) → opensArguments rest = false →
      NestsIf grammar (faithful grammar source = true) (levels grammar source)
        (.stem (indexes.foldl .property expr)) (spell grammar source indexes ++ rest) rest) :
    Reread grammar source expr [.atom (spell grammar source []) source expr] := by
  refine ofOperand (isOperation_of_takesParts takes) weight same (fun tail apart => ?_)
    (fun _ => stem)
  obtain ⟨n, nests, hn⟩ := stem [] tail (by simp) (opensArguments_eq_false apart)
  exact ⟨n, .operand nests (opensPart_eq_false apart), hn⟩

/-- The row of an operand, which may need parentheses if it is an operation. -/
theorem arrange {items : List Item} (h : Reread grammar source expr items) (wrapped : Bool)
    (operation : wrapped = true → source.isOperation = true) :
    ∃ row, Layout grammar wrapped source row ∧
      Item.spelling row = wrap wrapped (spell grammar source []) ∧
      (∀ item ∈ row, item.Readable grammar) ∧ (∀ item ∈ row, item.Counted grammar) ∧
      (∀ more, Alternates grammar false more → Alternates grammar true (row ++ more)) ∧
      (faithful grammar source = true ↔
        (∀ item ∈ row, item.Exact) ∧ (wrapped || grouped grammar source) = true) := by
  cases wrapped with
  | false =>
    exact ⟨items, h.layout, h.spelling, h.readable, h.counted, h.turn, by simpa using h.exactly⟩
  | true =>
    refine ⟨[.atom (wrap true (spell grammar source [])) source expr], .wrapped h.weight,
      by simp [Item.symbols], ?_, ?_, fun more hmore => by simpa [Alternates] using hmore, ?_⟩
    · simp only [List.mem_singleton, forall_eq, Item.Readable]
      intro tail apart
      obtain ⟨n, nests, -⟩ := @nests_wrap grammar _ _ _ _ tail h.whole
      exact .operand nests.reads (opensPart_eq_false apart)
    · simp only [List.mem_singleton, forall_eq, Item.Counted]
      intro heq tail apart
      obtain ⟨n, nests, hn⟩ := @nests_wrap grammar _ _ _ _ tail h.whole
      rw [operation rfl]
      rw [hn (h.same.1 heq), heq] at nests
      exact .operand nests (opensPart_eq_false apart)
    · simp [Item.Exact, h.same]

/-- What a row of operations is read as. -/
theorem ofLayout {items : List Item} (consistent : grammar.Consistent)
    (takes : takesParts source = false) (layout : Layout grammar false source items)
    (spelling : Item.spelling items = spell grammar source [])
    (readable : ∀ item ∈ items, item.Readable grammar)
    (counted : ∀ item ∈ items, item.Counted grammar)
    (turn : ∀ more, Alternates grammar false more → Alternates grammar true (items ++ more))
    (exactly : faithful grammar source = true ↔
      (∀ item ∈ items, item.Exact) ∧ grouped grammar source = true) :
    ∃ expr, Reread grammar source expr items := by
  have reread {expr : Expr} (weight : expr.weight = source.weight)
      (same : expr = source ↔ faithful grammar source = true)
      (whole : ∀ tail, Ends grammar tail →
        NestsIf grammar (faithful grammar source = true) (levels grammar source + 1)
          (.expression 0 expr) (Item.spelling items ++ tail) tail) :
      Reread grammar source expr items := by
    refine ⟨weight, same, ?_, ?_, layout, spelling, readable, counted, turn, exactly⟩
    · rwa [spelling] at whole
    · intro h
      rw [takes] at h
      cases h
  by_cases hfaithful : faithful grammar source = true
  · obtain ⟨hexact, hgrouped⟩ := exactly.1 hfaithful
    refine ⟨source, reread rfl (by simp [hfaithful]) fun tail ends => ?_⟩
    have chain : Nests grammar (levels grammar source) (.chain 0 source)
        (Item.spelling items ++ tail) tail :=
      layout.nests consistent hexact counted hgrouped (fun h => nomatch h)
        (fun _ _ _ _ _ _ _ => Nat.zero_le _) (fun _ => ends.yields source) ends.noPart
    exact ⟨_, .expression chain ends.opensInfix_eq_false, fun _ => rfl⟩
  · have alternates : Alternates grammar true items := by simpa using turn [] trivial
    obtain ⟨expr, h⟩ := Groups.exists_whole alternates
    refine ⟨expr, reread ?_ (iff_of_false (fun heq => hfaithful ?_) hfaithful) ?_⟩
    · obtain ⟨front, hfront, hweight⟩ := h.exists_front
      rw [List.append_nil] at hfront
      rw [← layout.total_eq, hfront, hweight]
      rfl
    · subst heq
      cases h with
      | expression chain _ =>
        have chain : Groups grammar (.chain 0 expr) (items ++ []) [] := by simpa using chain
        exact exactly.2 (by simpa using layout.exact_and_grouped chain)
    · intro tail ends
      obtain ⟨n, nests⟩ := (h.reads alternates readable ends).exists_nests
      exact ⟨n, nests, fun known => absurd known hfaithful⟩

-- ============================================================================
-- Sequences
-- ============================================================================

/-- An expression that a comma or a closing bracket may follow does not start with a
    comma. -/
theorem head_ne_comma (separates : grammar.separates = true) {n least : Nat}
    {symbols rest : List Symbol} (h : Nests grammar n (.expression least expr) symbols rest) :
    symbols.head? ≠ some (.operator ",") := by
  obtain ⟨first, more, rfl, -, hfirst⟩ := h.reads.exists_first rfl
  intro hcomma
  have := hfirst "," (by simpa using hcomma)
  have known : grammar.unary? "," = none := by
    simpa [Grammar.separates] using (Bool.and_eq_true_iff.1 separates).1
  rw [known] at this
  cases this

/-- What the expressions of a sequence are read as. -/
theorem exists_items (separates : grammar.separates = true) {first : Expr} {exprs : List Expr}
    (h : ∀ source ∈ first :: exprs, ∃ expr items, Reread grammar source expr items) :
    ∃ read, (read = first :: exprs ↔ allFaithful grammar (first :: exprs) = true) ∧
      ∀ kind rest, NestsIf grammar (allFaithful grammar (first :: exprs) = true)
        (levelsAll grammar (first :: exprs)) (.items kind read)
        ([.operator ","].intercalate (spellAll grammar (first :: exprs)) ++
          .bracket kind.close :: rest) rest := by
  induction exprs generalizing first with
  | nil =>
    obtain ⟨expr, items, hread⟩ := h first List.mem_cons_self
    refine ⟨[expr], by simp [allFaithful, hread.same], fun kind rest => ?_⟩
    obtain ⟨n, expression, hn⟩ := hread.whole _ (@Ends.close grammar kind rest)
    rw [spellAll, spellAll, List.intercalate_singleton]
    refine ⟨n, .last (head_ne_comma separates expression) expression, fun known => ?_⟩
    rw [allFaithful, Bool.and_eq_true] at known
    rw [hn known.1, levelsAll, levelsAll, Nat.max_zero]
  | cons second exprs ih =>
    obtain ⟨expr, items, hread⟩ := h first List.mem_cons_self
    obtain ⟨read, same, hitems⟩ := ih fun source hsource =>
      h source (List.mem_cons_of_mem _ hsource)
    refine ⟨expr :: read, ?_, fun kind rest => ?_⟩
    · rw [allFaithful, Bool.and_eq_true, ← same, ← hread.same, List.cons.injEq]
    · obtain ⟨m, others, hm⟩ := hitems kind rest
      obtain ⟨n, expression, hn⟩ := hread.whole _ (@Ends.comma grammar separates
        ([.operator ","].intercalate (spellAll grammar (second :: exprs)) ++
          .bracket kind.close :: rest))
      rw [spellAll, spellAll, List.intercalate_cons_cons]
      simp only [List.append_assoc, List.singleton_append]
      refine ⟨max n m, .item (head_ne_comma separates expression) expression others,
        fun known => ?_⟩
      rw [allFaithful, Bool.and_eq_true] at known
      rw [hn known.1, hm known.2]
      rfl

theorem exists_sequence (separates : grammar.separates = true) {exprs : List Expr}
    (h : ∀ source ∈ exprs, ∃ expr items, Reread grammar source expr items) :
    ∃ read, RereadAll grammar exprs read := by
  cases exprs with
  | nil => exact ⟨[], by simp [allFaithful], fun kind rest => ⟨0, .empty, fun _ => rfl⟩⟩
  | cons first exprs =>
    obtain ⟨read, same, hitems⟩ := exists_items separates h
    refine ⟨read, same, fun kind rest => ?_⟩
    obtain ⟨n, items, hn⟩ := hitems kind rest
    exact ⟨n, .sequence items, hn⟩

-- ============================================================================
-- Trees
-- ============================================================================

/-- A single symbol that denotes a literal. -/
theorem ofLiteral {symbol : Symbol} (leaf : source.isOperation = false)
    (takes : takesParts source = false) (weight : expr.weight = 1)
    (flat : levels grammar source = 0) (same : expr = source ↔ faithful grammar source = true)
    (spelt : spell grammar source [] = [symbol]) (denotes : symbol.literal? = some expr) :
    Reread grammar source expr [.atom (spell grammar source []) source expr] := by
  refine ofOperand leaf weight same (fun tail _ => ?_) (fun h => ?_)
  · rw [spelt]
    exact ⟨0, .literal denotes, fun _ => flat.symm⟩
  · rw [takes] at h
    cases h

theorem ofList {items read : List Expr} (h : RereadAll grammar items read) :
    Reread grammar (.list items) (.list read)
      [.atom (spell grammar (.list items) []) (.list items) (.list read)] := by
  refine ofStem rfl rfl (by rw [faithful, Expr.list.injEq, h.same]) ?_
  intro indexes rest hindexes _
  obtain ⟨n, sequence, hn⟩ := h.sequence .items (indexSymbols indexes ++ rest)
  refine ⟨n, nests_indexSymbols (ofIndex_indexes hindexes) ?_, hn⟩
  rw [spell]
  simp only [List.cons_append, List.append_assoc]
  exact .list sequence

theorem ofCall {name : String} {arguments read : List Expr}
    (plain : Symbol.literal? (.word name) = none) (h : RereadAll grammar arguments read) :
    Reread grammar (.call name arguments) (.call name read)
      [.atom (spell grammar (.call name arguments) []) (.call name arguments)
        (.call name read)] := by
  refine ofStem rfl rfl (by simp [faithful, h.same]) ?_
  intro indexes rest hindexes _
  obtain ⟨n, sequence, hn⟩ := h.sequence .arguments (indexSymbols indexes ++ rest)
  refine ⟨max 0 n, nests_indexSymbols (ofIndex_indexes hindexes) ?_, fun known => ?_⟩
  · rw [spell]
    simp only [List.cons_append, List.append_assoc]
    exact .call (.name plain) sequence
  · rw [Nat.zero_max, levels]
    exact hn known

/-- The receiver of a part, which may need parentheses. -/
theorem receiver {items : List Item} (h : Reread grammar source expr items)
    {rest : List Symbol} (done : opensArguments rest = false) :
    NestsIf grammar (faithful grammar source = true)
      (levels grammar source + (!takesParts source).toNat) (.stem expr)
      (wrap (!takesParts source) (spell grammar source []) ++ rest) rest := by
  cases takes : takesParts source with
  | true => exact h.stem takes [] rest (by simp) done
  | false => exact nests_wrap h.whole

theorem ofMethodCall {name : String} {arguments read : List Expr} {items : List Item}
    (h : Reread grammar source expr items) (hread : RereadAll grammar arguments read) :
    Reread grammar (.methodCall source name arguments) (.methodCall expr name read)
      [.atom (spell grammar (.methodCall source name arguments) [])
        (.methodCall source name arguments) (.methodCall expr name read)] := by
  refine ofStem rfl rfl (by simp [faithful, hread.same, h.same]) ?_
  intro indexes rest hindexes _
  obtain ⟨n, sequence, hn⟩ := hread.sequence .arguments (indexSymbols indexes ++ rest)
  obtain ⟨m, stem, hm⟩ := @receiver grammar source expr items h
    (.operator "." :: .word name :: .bracket "(" ::
      ([.operator ","].intercalate (spellAll grammar arguments) ++
        .bracket ")" :: (indexSymbols indexes ++ rest))) (by simp [opensArguments])
  refine ⟨max m n, nests_indexSymbols (ofIndex_indexes hindexes) ?_, fun known => ?_⟩
  · rw [spell]
    simp only [List.cons_append, List.append_assoc]
    exact .method stem sequence
  · rw [faithful, Bool.and_eq_true] at known
    rw [hm known.1, hn known.2, levels]

theorem ofProperty {name : String} {items : List Item} (h : Reread grammar source expr items)
    (index : isIndexName name = true → IsIndex name) :
    Reread grammar (.property source name) (.property expr name)
      [.atom (spell grammar (.property source name) []) (.property source name)
        (.property expr name)] := by
  refine ofStem rfl rfl (by simp [faithful, h.same]) ?_
  intro indexes rest hindexes done
  rw [faithful, levels]
  cases hname : isIndexName name with
  | true =>
    rw [spell, hname]
    have hpath : ∀ other ∈ name :: indexes, IsIndex other := by
      simpa using ⟨index hname, hindexes⟩
    simp only [if_true]
    cases takes : takesParts source with
    | true => exact h.stem takes (name :: indexes) rest hpath done
    | false =>
      obtain ⟨n, nests, hn⟩ :=
        @nests_wrap grammar _ _ _ _ (indexSymbols (name :: indexes) ++ rest) h.whole
      refine ⟨n, ?_, hn⟩
      rw [← List.append_assoc] at nests
      exact @nests_indexSymbols grammar n expr _ (name :: indexes) _ _ (ofIndex_indexes hpath)
        (by simpa using nests)
  | false =>
    rw [spell_property_word hname]
    obtain ⟨n, nests, hn⟩ := @receiver grammar source expr items h
      (.operator "." :: .word name :: (indexSymbols indexes ++ rest)) (by simp [opensArguments])
    refine ⟨n, nests_indexSymbols (ofIndex_indexes hindexes) ?_, hn⟩
    simp only [List.append_assoc, List.cons_append]
    exact .property nests (opensArguments_indexSymbols done)

theorem ofUnary {symbol : String} {items : List Item} (consistent : grammar.Consistent)
    (known : (grammar.unary? symbol).isSome = true) (h : Reread grammar source expr items) :
    ∃ whole row, Reread grammar (.unary symbol source) whole row := by
  obtain ⟨info, known⟩ := Option.isSome_iff_exists.1 known
  obtain ⟨row, layout, spelling, readable, counted, turn, exactly⟩ :=
    h.arrange (wrapsUnder grammar info.priority source) isOperation_of_wrapsUnder
  obtain ⟨whole, hwhole⟩ := @ofLayout grammar (.unary symbol source) (.before symbol :: row)
    consistent rfl (.unary known layout)
    (by simp [Item.symbols, spell, spelling, unaryPriority_eq known, indexSymbols])
    (by simpa [Item.Readable] using readable) (by simpa [Item.Counted] using counted)
    (fun more hmore => ⟨by simp [known], turn more hmore⟩)
    (by simpa [Item.Exact, faithful, grouped, unaryPriority_eq known] using exactly)
  exact ⟨whole, _, hwhole⟩

theorem ofBinary {symbol : String} {left right first second : Expr} {items more : List Item}
    (consistent : grammar.Consistent) (known : (grammar.binary? symbol).isSome = true)
    (notPoint : symbol ≠ ".") (hleft : Reread grammar left first items)
    (hright : Reread grammar right second more) :
    ∃ whole row, Reread grammar (.binary symbol left right) whole row := by
  obtain ⟨info, known⟩ := Option.isSome_iff_exists.1 known
  obtain ⟨before, layoutLeft, spellingLeft, readableLeft, countedLeft, turnLeft, exactlyLeft⟩ :=
    hleft.arrange (wrapsBeside grammar info.priority (groupsRight grammar symbol) left)
      isOperation_of_wrapsBeside
  obtain ⟨after, layoutRight, spellingRight, readableRight, countedRight, turnRight,
      exactlyRight⟩ :=
    hright.arrange (wrapsBeside grammar info.priority (!groupsRight grammar symbol) right)
      isOperation_of_wrapsBeside
  have split {motive : Item → Prop} (hbefore : ∀ item ∈ before, motive item)
      (hbetween : motive (.between symbol)) (hafter : ∀ item ∈ after, motive item) :
      ∀ item ∈ before ++ .between symbol :: after, motive item := by
    intro item hitem
    rcases List.mem_append.1 hitem with hitem | hitem
    · exact hbefore item hitem
    · rcases List.mem_cons.1 hitem with rfl | hitem
      · exact hbetween
      · exact hafter item hitem
  obtain ⟨whole, hwhole⟩ := @ofLayout grammar (.binary symbol left right)
    (before ++ .between symbol :: after) consistent rfl (.binary known layoutLeft layoutRight)
    (by simp [Item.symbols, spell, spellingLeft, spellingRight, binaryPriority_eq known,
      indexSymbols])
    (split readableLeft trivial readableRight) (split countedLeft notPoint countedRight)
    (fun more hmore => by
      rw [List.append_assoc, List.cons_append]
      exact turnLeft _ ⟨by simp [known], notPoint, turnRight more hmore⟩)
    (by
      have exact_iff : (∀ item ∈ before ++ .between symbol :: after, item.Exact) ↔
          (∀ item ∈ before, item.Exact) ∧ ∀ item ∈ after, item.Exact := by
        simp [or_imp, forall_and, Item.Exact]
      rw [faithful, grouped, binaryPriority_eq known, exact_iff]
      simp only [Bool.and_eq_true, Bool.or_eq_true, exactlyLeft, exactlyRight, or_and_left]
      constructor
      · rintro ⟨⟨keeps, exactLeft, groupedLeft⟩, exactRight, groupedRight⟩
        exact ⟨⟨exactLeft, exactRight⟩, ⟨keeps, groupedLeft⟩, groupedRight⟩
      · rintro ⟨⟨exactLeft, exactRight⟩, ⟨keeps, groupedLeft⟩, groupedRight⟩
        exact ⟨⟨keeps, exactLeft, groupedLeft⟩, exactRight, groupedRight⟩)
  exact ⟨whole, _, hwhole⟩

end Reread

/-- A finite float is read as itself, infinity as the name that it is printed as. -/
theorem Reread.exists_ofFloat {grammar : Grammar} {bits : UInt64}
    (positive : Binary64.isPositive (.ofBits bits) = true) :
    ∃ expr, Reread grammar (.float bits) expr
      [.atom (spell grammar (.float bits) []) (.float bits) expr] := by
  rcases Binary64.cases_of_isPositive positive with ⟨significand, scale, hread⟩ | hread
  · have hfinite : Binary64.isFinite (.ofBits bits) = true := by simp [Binary64.isFinite, hread]
    refine ⟨.float bits, .ofLiteral rfl rfl rfl rfl (by simp [faithful, hfinite]) rfl ?_⟩
    rw [floatSymbol, if_pos hfinite, Symbol.literal?_number_iff, ofNumber_floatText hread]
  · have hfinite : Binary64.isFinite (.ofBits bits) = false := by simp [Binary64.isFinite, hread]
    have hspell : spell grammar (.float bits) [] = [.word "inf"] := by
      simp [spell, floatSymbol, hfinite, Decimal.Layout.text, hread, indexSymbols]
    refine ⟨.identifier "inf", .ofOperand rfl rfl (by simp [faithful, hfinite]) ?_ ?_⟩
    · intro tail apart
      rw [hspell]
      exact ⟨0, .operand (.name (by decide)) (opensPart_eq_false apart), fun _ => rfl⟩
    · intro h
      cases h

/-- Every tree that can be spelt is read as some tree. -/
theorem exists_reread {grammar : Grammar} {keywords : List String}
    (consistent : grammar.Consistent) {source : Expr} (h : Spellable grammar keywords source) :
    ∃ expr items, Reread grammar source expr items := by
  induction h with
  | unary known _ _ _ ih =>
    obtain ⟨_, _, hinner⟩ := ih
    exact hinner.ofUnary consistent known
  | binary known shape _ _ ihLeft ihRight =>
    obtain ⟨_, _, hleft⟩ := ihLeft
    obtain ⟨_, _, hright⟩ := ihRight
    exact Reread.ofBinary consistent known shape.ne_point hleft hright
  | methodCall separates _ _ _ ih ihArguments =>
    obtain ⟨_, _, hreceiver⟩ := ih
    obtain ⟨_, hread⟩ := Reread.exists_sequence separates ihArguments
    exact ⟨_, _, hreceiver.ofMethodCall hread⟩
  | call separates word _ ih =>
    obtain ⟨_, hread⟩ := Reread.exists_sequence separates ih
    exact ⟨_, _, .ofCall word.2 hread⟩
  | property _ part ih =>
    obtain ⟨_, _, hreceiver⟩ := ih
    refine ⟨_, _, hreceiver.ofProperty fun hindex => part.resolve_left fun word => ?_⟩
    rw [word.not_isIndexName] at hindex
    cases hindex
  | @identifier name word =>
    refine ⟨.identifier name, _, .ofStem rfl rfl (by simp [faithful]) ?_⟩
    exact fun indexes rest hindexes _ =>
      ⟨0, nests_indexSymbols (ofIndex_indexes hindexes) (.name word.2), fun _ => rfl⟩
  | @bool value =>
    refine ⟨.bool value, _, .ofLiteral rfl rfl rfl rfl (by simp [faithful]) rfl ?_⟩
    cases value <;> rfl
  | nil => exact ⟨.nil, _, .ofLiteral rfl rfl rfl rfl (by simp [faithful]) rfl rfl⟩
  | float positive =>
    obtain ⟨expr, hexpr⟩ := Reread.exists_ofFloat positive
    exact ⟨expr, _, hexpr⟩
  | @int value positive =>
    refine ⟨.int value, _, .ofLiteral rfl rfl rfl rfl (by simp [faithful]) rfl ?_⟩
    exact Symbol.literal?_number_iff.2 (ofNumber_toString positive)
  | @text value =>
    exact ⟨.text value, _, .ofLiteral rfl rfl rfl rfl (by simp [faithful]) rfl rfl⟩
  | list separates _ ih =>
    obtain ⟨_, hread⟩ := Reread.exists_sequence separates ih
    exact ⟨_, _, .ofList hread⟩

end ExprMachine
