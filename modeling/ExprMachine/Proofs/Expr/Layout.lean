/-
  ExprMachine.Proofs.Expr.Layout

  The row of operators and operands that a printed tree lies in, and the condition
  under which precedence climbing gives the tree back: no operand that stands open on
  the left of an infix operator ends in a prefix operator that takes this operator
  for its own operand.
-/
import ExprMachine.Proofs.Expr.Grouping

namespace ExprMachine

namespace Expr

/-- Whether the tree, printed without parentheses around it, ends in an operand of a
    prefix operator that goes on over an infix operator of the given priority. -/
def swallows (grammar : Grammar) (priority : Nat) : Expr → Bool
  | .unary symbol operand =>
    decide (unaryPriority grammar symbol ≤ priority) ||
      (!wrapsUnder grammar (unaryPriority grammar symbol) operand &&
        swallows grammar priority operand)
  | .binary symbol _ right =>
    !wrapsBeside grammar (binaryPriority grammar symbol) (!groupsRight grammar symbol) right &&
      swallows grammar priority right
  | _ => false

/-- Whether the operators of the tree that are printed without parentheses between
    them group as they do in the tree. -/
def grouped (grammar : Grammar) : Expr → Bool
  | .unary symbol operand =>
    wrapsUnder grammar (unaryPriority grammar symbol) operand || grouped grammar operand
  | .binary symbol left right =>
    let priority := binaryPriority grammar symbol
    let rightward := groupsRight grammar symbol
    (wrapsBeside grammar priority rightward left ||
        (!swallows grammar priority left && grouped grammar left)) &&
      (wrapsBeside grammar priority (!rightward) right || grouped grammar right)
  | _ => true

/-- Whether an operator is at the root. -/
def isOperation : Expr → Bool
  | .unary .. | .binary .. => true
  | _ => false

end Expr

/-- Infix operators of one priority group to one side. -/
def Grammar.Consistent (grammar : Grammar) : Prop :=
  ∀ symbol symbol' info info', grammar.binary? symbol = some info →
    grammar.binary? symbol' = some info' → info.priority = info'.priority →
      info.associativity = info'.associativity

open ExprMachine.Expr

/-- `Layout grammar wrapped expr items`: the tree, printed with or without parentheses
    around it, lies in the row. -/
inductive Layout (grammar : Grammar) : (wrapped : Bool) → Expr → List Item → Prop where
  | wrapped {source symbols expr} (weight : expr.weight = source.weight) :
      Layout grammar true source [.atom symbols source expr]
  | leaf {source symbols expr} (leaf : source.isOperation = false) (weight : expr.weight = 1) :
      Layout grammar false source [.atom symbols source expr]
  | unary {symbol info operand items} (known : grammar.unary? symbol = some info)
      (inner : Layout grammar (wrapsUnder grammar info.priority operand) operand items) :
      Layout grammar false (.unary symbol operand) (.before symbol :: items)
  | binary {symbol info left right before after} (known : grammar.binary? symbol = some info)
      (leftInner : Layout grammar
        (wrapsBeside grammar info.priority (groupsRight grammar symbol) left) left before)
      (rightInner : Layout grammar
        (wrapsBeside grammar info.priority (!groupsRight grammar symbol) right) right after) :
      Layout grammar false (.binary symbol left right) (before ++ .between symbol :: after)

-- ============================================================================
-- Priorities
-- ============================================================================

namespace Expr

variable {grammar : Grammar} {symbol : String} {info : OperatorInfo}

theorem unaryPriority_eq (known : grammar.unary? symbol = some info) :
    unaryPriority grammar symbol = info.priority := by
  simp [unaryPriority, known]

theorem binaryPriority_eq (known : grammar.binary? symbol = some info) :
    binaryPriority grammar symbol = info.priority := by
  simp [binaryPriority, known]

theorem groupsRight_eq (known : grammar.binary? symbol = some info) :
    groupsRight grammar symbol = (info.associativity == .right) := by
  simp [groupsRight, known]

end Expr

theorem OperatorInfo.priority_le_rightBound (info : OperatorInfo) :
    info.priority ≤ info.rightBound := by
  unfold OperatorInfo.rightBound
  split <;> omega

namespace Layout

variable {grammar : Grammar}

theorem total_eq {wrapped : Bool} {expr : Expr} {items : List Item}
    (h : Layout grammar wrapped expr items) : Item.total items = expr.weight := by
  induction h with
  | wrapped weight => simp [Item.weight, weight]
  | @leaf source symbols expr leaf weight =>
    have : source.weight = 1 := by
      cases source with
      | unary | binary => cases leaf
      | _ => rfl
    simp [Item.weight, weight, this]
  | unary _ _ ih => simp [Item.weight, Expr.weight, ih, Nat.add_comm]
  | binary _ _ _ ihLeft ihRight =>
    simp only [Item.total_append, Item.total_cons, Item.weight, Expr.weight, ihLeft, ihRight]
    omega

-- ============================================================================
-- What a faithful grouping shows
-- ============================================================================

/-- An atom that is read as its source. -/
theorem exact_of_atom {least : Nat} {symbols : List Symbol} {source expr : Expr}
    {rest : List Item} (weight : expr.weight = source.weight)
    (h : Groups grammar (.chain least source) (.atom symbols source expr :: rest) rest) :
    expr = source := by
  cases h with
  | single operand =>
    cases operand with
    | atom => rfl
  | @binary _ symbol info left right _ between _ chain _ _ _ =>
    -- The atom alone outweighs the left operand of the tree that it would be part of.
    exfalso
    obtain ⟨front, hfront, htotal⟩ := chain.exists_front
    cases front with
    | nil =>
      have := left.weight_pos
      simp only [Item.total_nil, Phrase.weight] at htotal
      omega
    | cons item front =>
      obtain ⟨rfl, -⟩ := List.cons.inj hfront
      simp only [Item.total_cons, Item.weight, Phrase.weight] at htotal
      simp only [Expr.weight] at weight
      omega

/-- An infix operator is where it was in the tree. -/
theorem binary_split {least : Nat} {symbol : String} {info : OperatorInfo} {left right : Expr}
    {before after rest : List Item} (known : grammar.binary? symbol = some info)
    (hbefore : Item.total before = left.weight)
    (h : Groups grammar (.chain least (.binary symbol left right))
      (before ++ .between symbol :: (after ++ rest)) rest) :
    Groups grammar (.chain least left) (before ++ .between symbol :: (after ++ rest))
        (.between symbol :: (after ++ rest)) ∧ least ≤ info.priority ∧
      Groups grammar (.expression info.rightBound right) (after ++ rest) rest := by
  cases h with
  | single operand =>
    exfalso
    generalize hrow : before ++ .between symbol :: (after ++ rest) = row at operand
    cases operand with
    | @atom symbols source expr rest =>
      cases before with
      | nil =>
        have := left.weight_pos
        simp only [Item.total_nil] at hbefore
        omega
      | cons item before =>
        rw [List.cons_append] at hrow
        have := congrArg List.length (List.cons.inj hrow).2
        simp only [List.length_append, List.length_cons] at this
        omega
  | binary chain known' binds expression =>
    obtain rfl : info = _ := Option.some.inj (known.symm.trans known')
    have hrest := chain.rest_eq hbefore
    obtain rfl := (List.cons.inj hrest).2
    exact ⟨chain, binds, expression⟩

theorem unary_split {least : Nat} {symbol : String} {info : OperatorInfo} {operand : Expr}
    {items rest : List Item} (known : grammar.unary? symbol = some info)
    (h : Groups grammar (.chain least (.unary symbol operand)) (.before symbol :: items) rest) :
    Groups grammar (.expression info.priority operand) items rest := by
  cases h with
  | single single =>
    cases single with
    | unary known' expression =>
      obtain rfl : info = _ := Option.some.inj (known.symm.trans known')
      exact expression

/-- If a row is grouped to the tree that lies in it, then no operator of the tree takes
    what follows. -/
theorem not_swallows {wrapped : Bool} {expr : Expr} {items more : List Item} {least : Nat}
    {symbol : String} {info : OperatorInfo} (layout : Layout grammar wrapped expr items)
    (known : grammar.binary? symbol = some info) (isOpen : wrapped = false)
    (h : Groups grammar (.chain least expr) (items ++ .between symbol :: more)
      (.between symbol :: more)) :
    swallows grammar info.priority expr = false := by
  induction layout generalizing least with
  | wrapped => cases isOpen
  | @leaf source _ _ leaf =>
    cases source with
    | unary | binary => cases leaf
    | _ => rfl
  | @unary outer infoOuter operand items knownOuter inner ih =>
    cases unary_split knownOuter h with
    | expression chain done =>
      rw [swallows, unaryPriority_eq knownOuter]
      have hdone : ¬ infoOuter.priority ≤ info.priority := by
        simpa [opensBetween, known] using done
      cases hwraps : wrapsUnder grammar infoOuter.priority operand with
      | true => simpa using hdone
      | false => simpa [ih hwraps chain] using hdone
  | @binary inner infoInner left right before after knownInner leftInner rightInner _ ihRight =>
    rw [List.append_assoc, List.cons_append] at h
    obtain ⟨-, -, expression⟩ :=
      binary_split knownInner leftInner.total_eq h
    cases expression with
    | expression chain done =>
      rw [swallows, binaryPriority_eq knownInner]
      cases hwraps : wrapsBeside grammar infoInner.priority (!groupsRight grammar inner) right with
      | true => rfl
      | false => simp [ihRight hwraps chain]

/-- If a row is grouped to the tree that lies in it, then all its operands are read as
    they were, and the open operators group as they did. -/
theorem exact_and_grouped {wrapped : Bool} {expr : Expr} {items rest : List Item} {least : Nat}
    (layout : Layout grammar wrapped expr items)
    (h : Groups grammar (.chain least expr) (items ++ rest) rest) :
    (∀ item ∈ items, item.Exact) ∧ (wrapped || grouped grammar expr) = true := by
  induction layout generalizing least rest with
  | wrapped weight =>
    have := exact_of_atom weight h
    simpa [Item.Exact] using this
  | @leaf source symbols expr leaf weight =>
    have hsource : source.weight = 1 := by
      cases source with
      | unary | binary => cases leaf
      | _ => rfl
    have := exact_of_atom (weight.trans hsource.symm) h
    refine ⟨by simpa [Item.Exact] using this, ?_⟩
    cases source with
    | unary | binary => cases leaf
    | _ => rfl
  | @unary symbol info operand items known inner ih =>
    cases unary_split known h with
    | expression chain done =>
      obtain ⟨hexact, hgrouped⟩ := ih chain
      refine ⟨by simpa [Item.Exact] using hexact, ?_⟩
      rw [Bool.false_or, grouped, unaryPriority_eq known]
      exact hgrouped
  | @binary symbol info left right before after known leftInner rightInner ihLeft ihRight =>
    rw [List.append_assoc, List.cons_append] at h
    obtain ⟨chain, -, expression⟩ :=
      binary_split known leftInner.total_eq h
    cases expression with
    | expression chainRight done =>
      obtain ⟨exactLeft, groupedLeft⟩ := ihLeft chain
      obtain ⟨exactRight, groupedRight⟩ := ihRight chainRight
      constructor
      · intro item hitem
        rcases List.mem_append.1 hitem with hitem | hitem
        · exact exactLeft item hitem
        · rcases List.mem_cons.1 hitem with rfl | hitem
          · trivial
          · exact exactRight item hitem
      · rw [Bool.false_or, grouped, binaryPriority_eq known]
        simp only [Bool.and_eq_true]
        refine ⟨?_, groupedRight⟩
        cases hwraps : wrapsBeside grammar info.priority (groupsRight grammar symbol) left with
        | true => rfl
        | false =>
          rw [hwraps] at groupedLeft
          simpa [not_swallows leftInner known hwraps chain] using groupedLeft

-- ============================================================================
-- What groups faithfully
-- ============================================================================

/-- Whether these symbols may follow a tree that is printed without parentheses: an infix
    operator that comes next binds less tightly than what it would split. -/
def Yields (grammar : Grammar) (expr : Expr) (tail : List Symbol) : Prop :=
  ∀ symbol more info, tail = .operator symbol :: more → grammar.binary? symbol = some info →
    swallows grammar info.priority expr = false ∧
      ∀ inner left right infoInner, expr = .binary inner left right →
        grammar.binary? inner = some infoInner → info.priority < infoInner.rightBound

/-- Whether the operator at the root of a tree binds tightly enough. -/
def Fits (grammar : Grammar) (least : Nat) (expr : Expr) : Prop :=
  ∀ symbol left right info, expr = .binary symbol left right →
    grammar.binary? symbol = some info → least ≤ info.priority

theorem opensInfix_eq_false {least : Nat} {tail : List Symbol}
    (h : ∀ symbol more info, tail = .operator symbol :: more →
      grammar.binary? symbol = some info → info.priority < least) :
    Reading.opensInfix grammar least tail = false := by
  match tail with
  | [] => rfl
  | .operator symbol :: more =>
    cases known : grammar.binary? symbol with
    | none => simp [Reading.opensInfix, known]
    | some info => simpa [Reading.opensInfix, known] using h symbol more info rfl known
  | .bracket _ :: _ | .word _ :: _ | .number _ :: _ | .text _ :: _ | ⟨.endOfInput, _⟩ :: _ => rfl

/-- An operand that needs no parentheses under a prefix operator fits there. -/
theorem fits_of_wrapsUnder {priority : Nat} {expr : Expr}
    (h : wrapsUnder grammar priority expr = false) : Fits grammar priority expr := by
  rintro symbol left right info rfl known
  simpa [wrapsUnder, binaryPriority_eq known] using h

/-- An operand that needs no parentheses beside an infix operator binds at least as
    tightly, and more tightly on the side where ties would group differently. -/
theorem priority_of_wrapsBeside {priority : Nat} {onTie : Bool} {symbol : String}
    {left right : Expr} {info : OperatorInfo}
    (h : wrapsBeside grammar priority onTie (.binary symbol left right) = false)
    (known : grammar.binary? symbol = some info) :
    priority ≤ info.priority ∧ (info.priority = priority → onTie = false) := by
  rw [wrapsBeside, binaryPriority_eq known] at h
  simp only [Bool.or_eq_false_iff, decide_eq_false_iff_not, Bool.and_eq_false_iff,
    beq_eq_false_iff_ne] at h
  obtain ⟨⟨hle, htie⟩, -⟩ := h
  exact ⟨by omega, fun heq => htie.resolve_left (fun hne => hne heq)⟩

section Beside

variable {symbol : String} {info : OperatorInfo}

theorem fits_left {expr : Expr} {least : Nat} (binds : least ≤ info.priority)
    (h : wrapsBeside grammar info.priority (groupsRight grammar symbol) expr = false) :
    Fits grammar least expr := by
  rintro inner left right infoInner rfl knownInner
  exact Nat.le_trans binds (priority_of_wrapsBeside h knownInner).1

theorem fits_right {expr : Expr} (known : grammar.binary? symbol = some info)
    (h : wrapsBeside grammar info.priority (!groupsRight grammar symbol) expr = false) :
    Fits grammar info.rightBound expr := by
  rintro inner left right infoInner rfl knownInner
  obtain ⟨hle, htie⟩ := priority_of_wrapsBeside h knownInner
  rw [groupsRight_eq known] at htie
  unfold OperatorInfo.rightBound
  cases hside : info.associativity with
  | left =>
    have hne : infoInner.priority ≠ info.priority := fun heq => by simpa [hside] using htie heq
    simp only
    omega
  | right => exact hle

theorem yields_left {expr : Expr} {more : List Symbol} (consistent : grammar.Consistent)
    (known : grammar.binary? symbol = some info)
    (swallowsNot : swallows grammar info.priority expr = false)
    (h : wrapsBeside grammar info.priority (groupsRight grammar symbol) expr = false) :
    Yields grammar expr (.operator symbol :: more) := by
  rintro symbol' more' info' heq known'
  cases heq
  obtain rfl := Option.some.inj (known.symm.trans known')
  refine ⟨swallowsNot, ?_⟩
  rintro inner left right infoInner rfl knownInner
  obtain ⟨hle, htie⟩ := priority_of_wrapsBeside h knownInner
  rw [groupsRight_eq known] at htie
  unfold OperatorInfo.rightBound
  cases hside : infoInner.associativity with
  | left => simp only; omega
  | right =>
    have hne : infoInner.priority ≠ info.priority := by
      intro heq
      have hsame := consistent _ _ _ _ knownInner known heq
      rw [hside] at hsame
      simpa [← hsame] using htie heq
    simp only
    omega

end Beside

theorem Yields.unary {symbol : String} {info : OperatorInfo} {operand : Expr}
    {tail : List Symbol} (known : grammar.unary? symbol = some info)
    (h : Yields grammar (.unary symbol operand) tail) {symbol' : String} {more : List Symbol}
    {info' : OperatorInfo} (htail : tail = .operator symbol' :: more)
    (known' : grammar.binary? symbol' = some info') :
    info'.priority < info.priority ∧ (wrapsUnder grammar info.priority operand = false →
      swallows grammar info'.priority operand = false) := by
  have := (h symbol' more info' htail known').1
  rw [swallows, unaryPriority_eq known] at this
  simp only [Bool.or_eq_false_iff, decide_eq_false_iff_not, Bool.and_eq_false_iff,
    Bool.not_eq_false'] at this
  exact ⟨by omega, fun hwraps => this.2.resolve_left (by simp [hwraps])⟩

/-- What may follow an operator before an operand may follow the operand. -/
theorem Yields.operand {symbol : String} {info : OperatorInfo} {operand : Expr}
    {tail : List Symbol} (known : grammar.unary? symbol = some info)
    (h : Yields grammar (.unary symbol operand) tail)
    (hwraps : wrapsUnder grammar info.priority operand = false) : Yields grammar operand tail := by
  intro symbol' more info' htail known'
  obtain ⟨hlt, hswallows⟩ := h.unary known htail known'
  refine ⟨hswallows hwraps, ?_⟩
  rintro inner left right infoInner rfl knownInner
  have hfit := fits_of_wrapsUnder hwraps _ _ _ _ rfl knownInner
  have hbound := infoInner.priority_le_rightBound
  omega

/-- What may follow an operator between two operands may follow the second one. -/
theorem Yields.right {symbol : String} {info : OperatorInfo} {left right : Expr}
    {tail : List Symbol} (known : grammar.binary? symbol = some info)
    (h : Yields grammar (.binary symbol left right) tail)
    (hwraps : wrapsBeside grammar info.priority (!groupsRight grammar symbol) right = false) :
    Yields grammar right tail := by
  intro symbol' more info' htail known'
  obtain ⟨hswallows, hbound⟩ := h symbol' more info' htail known'
  rw [swallows, binaryPriority_eq known, hwraps] at hswallows
  refine ⟨by simpa using hswallows, ?_⟩
  rintro inner left' right' infoInner rfl knownInner
  have hfit := fits_right known hwraps _ _ _ _ rfl knownInner
  have hle := infoInner.priority_le_rightBound
  have hlt := hbound _ _ _ _ rfl known
  omega

end Layout

end ExprMachine
