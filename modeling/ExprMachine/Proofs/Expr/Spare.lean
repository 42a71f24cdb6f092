/-
  ExprMachine.Proofs.Expr.Spare

  Which pairs of parentheses of a printed tree can be left out. What is left without a pair
  is a way to write the tree only if the pair stood around a prefix operator which nothing
  behind it could have been taken for a part of.
-/
import ExprMachine.Proofs.Expr.Enclosing

namespace ExprMachine

open ExprMachine.Expr Reading

variable {grammar : Grammar} {keywords : List String}

-- ============================================================================
-- Trees that leave parts
-- ============================================================================

/-- The literal of one token that a printed tree ends in, to the right of all infix operators
    that stand without parentheses. -/
def Expr.lastLiteral? (grammar : Grammar) : Expr → Option Expr
  | .binary symbol _ right =>
    if wrapsBeside grammar (binaryPriority grammar symbol) (!groupsRight grammar symbol) right then
      none
    else lastLiteral? grammar right
  | expr => if expr.isLiteral then some expr else none

/-- Whether the parentheses around a printed tree can be left out before these symbols: it is
    a prefix operator, an infix operator that comes next binds less tightly than every prefix
    operator that would take it, and a part that comes next does not belong to the operand. -/
inductive Expr.Spare (grammar : Grammar) : Expr → List Symbol → Prop where
  | unary {symbol operand rest} (yields : Layout.Yields grammar (.unary symbol operand) rest)
      (leaves : opensAccess rest = true →
        wrapsUnder grammar (unaryPriority grammar symbol) operand = false ∧
          (lastLiteral? grammar operand).isSome = true) :
      Spare grammar (.unary symbol operand) rest

theorem Expr.Spare.of_outline {expr : Expr} {rest : List Symbol}
    (h : Spare grammar expr (outline rest)) : Spare grammar expr rest := by
  cases h with
  | unary yields leaves =>
    rw [opensAccess_outline] at leaves
    refine .unary ?_ leaves
    rintro symbol more info rfl known
    exact yields symbol (outline more) info rfl known

theorem Expr.outline_wrap (symbols : List Symbol) :
    outline (wrap true symbols) = .bracket "(" :: (outline symbols ++ [.bracket ")"]) := by
  simp [wrap]

namespace Bracketed

variable {paired wrapped : Bool} {expr : Expr} {rest : List Symbol}

theorem not_wrapped (h : Bracketed grammar (.tree false expr)
    (outline (wrap wrapped (spell grammar expr []))) rest) : wrapped = false := by
  cases wrapped with
  | false => rfl
  | true =>
    rw [outline_wrap] at h
    exact absurd (h.unpair (balanced_outline_iff.2 (balanced_spell expr []))).1 (by simp)

theorem outline_unary (symbol : String) (operand : Expr) :
    outline (spell grammar (.unary symbol operand) []) = .operator symbol :: outline
      (wrap (wrapsUnder grammar (unaryPriority grammar symbol) operand)
        (spell grammar operand [])) := by
  simp [spell, indexSymbols]

theorem outline_binary (symbol : String) (left right : Expr) :
    outline (spell grammar (.binary symbol left right) []) =
      outline (wrap (wrapsBeside grammar (binaryPriority grammar symbol)
          (groupsRight grammar symbol) left) (spell grammar left [])) ++
        .operator symbol :: outline (wrap (wrapsBeside grammar (binaryPriority grammar symbol)
          (!groupsRight grammar symbol) right) (spell grammar right [])) := by
  simp [spell, indexSymbols]

/-- The operands of an infix operator without parentheses around it. -/
theorem of_spell_binary (withoutPoint : grammar.WithoutPoint) {symbol : String} {left right : Expr}
    (hleft : Spellable grammar keywords left)
    (h : Bracketed grammar (.tree paired (.binary symbol left right))
      (outline (spell grammar (.binary symbol left right) [])) rest) :
    paired = false ∧ ∃ info other, grammar.binary? symbol = some info ∧
      Bracketed grammar (.tree other right)
        (outline (wrap (wrapsBeside grammar (binaryPriority grammar symbol)
          (!groupsRight grammar symbol) right) (spell grammar right []))) rest ∧
        grammar.Keeps info.rightBound other right rest ∧
          opensInfix grammar info.rightBound rest = false := by
  rw [outline_binary] at h
  obtain ⟨bare, info, -, other, known, -, second, keeps, done⟩ := h.of_binary withoutPoint
    (balanced_outline_iff.2 (balanced_wrap _ (balanced_spell left [])))
    (by rw [size_wrap, hleft.size_eq])
  exact ⟨bare, info, other, known, second, keeps, done⟩

/-- An operand that a part follows ends in a literal. -/
theorem leaves (withoutPoint : grammar.WithoutPoint) {least : Nat}
    (h : Spellable grammar keywords expr) (access : opensAccess rest = true)
    (written : Bracketed grammar (.tree paired expr)
      (outline (wrap wrapped (spell grammar expr []))) rest)
    (keeps : grammar.Keeps least paired expr rest) :
    wrapped = false ∧ (lastLiteral? grammar expr).isSome = true := by
  obtain ⟨rfl, form⟩ := keeps.complete access
  obtain rfl := written.not_wrapped
  refine ⟨rfl, ?_⟩
  clear keeps
  induction h with
  | @binary symbol left right _ _ first _ _ ih =>
    obtain ⟨-, info, other, -, second, keepsRight, -⟩ := written.of_spell_binary withoutPoint first
    obtain ⟨rfl, formRight⟩ := keepsRight.complete access
    have bare := second.not_wrapped
    rw [bare] at second
    rw [lastLiteral?, bare]
    exact ih formRight second
  | bool | nil | float | int | text => rfl
  | _ =>
    rcases form with literal | ⟨_, _, _, same⟩
    · cases literal
    · cases same

/-- A prefix operator at the end of a tree does not take what follows the tree. -/
theorem not_swallows (withoutPoint : grammar.WithoutPoint) {symbol : String} {info : OperatorInfo}
    {more : List Symbol} (known : grammar.binary? symbol = some info)
    (h : Spellable grammar keywords expr)
    (written : Bracketed grammar (.tree paired expr) (outline (spell grammar expr []))
      (.operator symbol :: more)) : swallows grammar info.priority expr = false := by
  induction h generalizing paired with
  | @unary prefixed operand _ _ _ inner ih =>
    rw [outline_unary] at written
    obtain ⟨infoUnary, other, knownUnary, bare, -, done⟩ := written.of_unary
    have apart : info.priority < infoUnary.priority := by
      simpa [opensInfix, known] using done
    rw [swallows, unaryPriority_eq knownUnary]
    cases wraps : wrapsUnder grammar infoUnary.priority operand with
    | true => simpa using apart
    | false =>
      rw [unaryPriority_eq knownUnary, wraps] at bare
      simpa [ih bare] using apart
  | @binary _ _ right _ _ first _ _ ih =>
    obtain ⟨-, infoBinary, other, -, bare, -⟩ := written.of_spell_binary withoutPoint first
    rw [swallows]
    cases wraps : wrapsBeside grammar _ _ right with
    | true => rfl
    | false =>
      rw [wraps] at bare
      exact ih bare
  | _ => rfl

/-- A prefix operator that is written without a pair does not need one. -/
theorem spare (withoutPoint : grammar.WithoutPoint) {symbol : String} {operand : Expr}
    (h : Spellable grammar keywords (.unary symbol operand))
    (written : Bracketed grammar (.tree paired (.unary symbol operand))
      (outline (spell grammar (.unary symbol operand) [])) rest) :
    Spare grammar (.unary symbol operand) rest := by
  refine .unary ?_ fun access => ?_
  · rintro other more info rfl known
    exact ⟨written.not_swallows withoutPoint known h, fun _ _ _ _ same => by cases same⟩
  · rw [outline_unary] at written
    obtain ⟨info, other, -, inner, keeps, -⟩ := written.of_unary
    cases h with
    | unary _ _ _ operand => exact inner.leaves withoutPoint operand access keeps

end Bracketed

-- ============================================================================
-- Pairs that are needed
-- ============================================================================

namespace Stretch

/-- Whether, in whatever way the stretch is written without the pair of parentheses around the
    inner tree, the pair is spare there. An operand that is written without a pair of its own
    needs a look at what stands around it. -/
def Keeps (grammar : Grammar) (before : List Symbol) (inner : Expr) (after : List Symbol) :
    Stretch → Prop
  | .bare expr indexes => ∃ left, outline after = left ++ indexOutline indexes ∧
      ∀ paired rest, Bracketed grammar (.tree paired expr)
        (outline before ++ (outline (spell grammar inner []) ++ left)) rest →
          Spare grammar inner (left ++ rest)
  | .operand wrapped expr => ∀ paired rest, Bracketed grammar (.tree paired expr)
      (outline before ++ (outline (spell grammar inner []) ++ outline after)) rest →
        Spare grammar inner (outline after ++ rest) ∨ wrapped = true ∧ paired = false ∧
          (expr.isLiteral = true ∨ ∃ symbol left right info, expr = .binary symbol left right ∧
            grammar.binary? symbol = some info ∧ opensInfix grammar info.rightBound rest = false)
  | .sequence exprs => ∀ kind rest, Bracketed grammar (.sequence kind exprs)
      (outline before ++ (outline (spell grammar inner []) ++
        (outline after ++ [.bracket kind.close]))) rest →
          Spare grammar inner (outline after ++ .bracket kind.close :: rest)

/-- What this says of a whole tree. -/
theorem Keeps.spare {before after rest : List Symbol} {inner expr : Expr} {paired : Bool}
    (keeps : (Stretch.bare expr []).Keeps grammar before inner after)
    (written : Bracketed grammar (.tree paired expr)
      (outline before ++ (outline (spell grammar inner []) ++ outline after)) rest) :
    Spare grammar inner (outline after ++ rest) := by
  obtain ⟨behind, hafter, spare⟩ := keeps
  rw [indexOutline, List.flatMap_nil, List.append_nil] at hafter
  subst hafter
  exact spare paired rest written

end Stretch

namespace Encloses

variable {stretch : Stretch} {before after : List Symbol} {inner : Expr}

theorem balanced (h : Encloses grammar stretch before inner after)
    (balanced : Balanced (stretch.symbols grammar)) :
    Balanced (outline before ++ (outline (spell grammar inner []) ++ outline after)) := by
  rw [h.symbols_eq] at balanced
  have without := balanced.without_pair (balanced_spell inner [])
  rw [← balanced_outline_iff] at without
  simpa using without

theorem size_eq (h : Encloses grammar stretch before inner after) :
    size (outline before ++ (outline (spell grammar inner []) ++ outline after)) =
      size (outline (stretch.symbols grammar)) := by
  rw [h.symbols_eq]
  simp

/-- Without its pair, a tree that was put into parentheses. -/
theorem keeps_here (withoutPoint : grammar.WithoutPoint) {expr : Expr}
    (h : Spellable grammar keywords expr) (plain : takesParts expr = false) :
    (Stretch.operand true expr).Keeps grammar [] expr [] := by
  intro paired rest written
  replace written : Bracketed grammar (.tree paired expr) (outline (spell grammar expr []))
      rest := by
    simpa using written
  have ofLiteral (literal : expr.isLiteral = true) : paired = false := by
    rw [h.outline_literal literal] at written
    generalize hwhole : [Symbol.leaf] = whole at written
    cases written with
    | pair => simp [Symbol.leaf] at hwhole
    | _ => rfl
  cases h with
  | unary known shape apart operand =>
    exact .inl (written.spare withoutPoint (.unary known shape apart operand))
  | binary _ _ left _ =>
    obtain ⟨rfl, info, -, known, -, -, done⟩ := written.of_spell_binary withoutPoint left
    exact .inr ⟨rfl, rfl, .inr ⟨_, _, _, info, rfl, known, done⟩⟩
  | bool | nil | float | int | text => exact .inr ⟨rfl, ofLiteral rfl, .inl rfl⟩
  | _ => cases plain

/-- An operation in parentheses beside an infix operator binds less tightly, or as tightly and
    would group to the other side. -/
theorem looser_of_wraps {symbol inner : String} {info infoInner : OperatorInfo} {onTie : Bool}
    {first second : Expr} (known : grammar.binary? symbol = some info)
    (knownInner : grammar.binary? inner = some infoInner) (positive : 0 < info.priority)
    (wraps : wrapsBeside grammar (binaryPriority grammar symbol) onTie
      (.binary inner first second) = true) :
    infoInner.priority < info.priority ∨ infoInner.priority = info.priority ∧ onTie = true := by
  simp only [wrapsBeside, binaryPriority_eq known, binaryPriority_eq knownInner, Bool.or_eq_true,
    decide_eq_true_eq, Bool.and_eq_true, beq_iff_eq] at wraps
  rcases wraps with (looser | tie) | zero
  · exact .inl looser
  · exact .inr tie
  · omega

/-- What is in parentheses on the left of an infix operator could not stand there without. -/
theorem not_bare_left (consistent : grammar.Consistent) {symbol : String} {info : OperatorInfo}
    {left : Expr} {rest : List Symbol} (known : grammar.binary? symbol = some info)
    (positive : 0 < info.priority)
    (wraps : wrapsBeside grammar (binaryPriority grammar symbol) (groupsRight grammar symbol) left =
      true) :
    ¬ (left.isLiteral = true ∨ ∃ inner first second infoInner, left = .binary inner first second ∧
      grammar.binary? inner = some infoInner ∧
        opensInfix grammar infoInner.rightBound (.operator symbol :: rest) = false) := by
  rintro (literal | ⟨inner, first, second, infoInner, rfl, knownInner, done⟩)
  · cases left with
    | unary | binary => cases literal
    | _ => cases wraps
  · simp only [opensInfix, List.head?_cons, Option.any_some, known, beq_self_eq_true, Bool.true_and,
      decide_eq_false_iff_not, Nat.not_le] at done
    rcases looser_of_wraps known knownInner positive wraps with looser | ⟨tie, rightward⟩
    · unfold OperatorInfo.rightBound at done
      split at done <;> omega
    · have same := consistent _ _ _ _ knownInner known tie
      rw [groupsRight_eq known, beq_iff_eq] at rightward
      have bound : infoInner.rightBound = infoInner.priority := by
        rw [OperatorInfo.rightBound, same, rightward]
      omega

/-- What is in parentheses on the right of an infix operator could not stand there without,
    unless it is a prefix operator. -/
theorem not_bare_right {symbol : String} {info : OperatorInfo} {right : Expr} {rest : List Symbol}
    (known : grammar.binary? symbol = some info) (positive : 0 < info.priority)
    (keeps : grammar.Keeps info.rightBound false right rest)
    (wraps : wrapsBeside grammar (binaryPriority grammar symbol) (!groupsRight grammar symbol)
      right = true) :
    ¬ (right.isLiteral = true ∨ ∃ inner first second infoInner, right = .binary inner first second ∧
      grammar.binary? inner = some infoInner ∧
        opensInfix grammar infoInner.rightBound rest = false) := by
  rintro (literal | ⟨inner, first, second, infoInner, rfl, knownInner, -⟩)
  · cases right with
    | unary | binary => cases literal
    | _ => cases wraps
  · have binds := keeps.binds rfl _ _ _ rfl
    have bound := info.priority_le_rightBound
    rw [binaryPriority_eq knownInner] at binds
    rcases looser_of_wraps known knownInner positive wraps with looser | ⟨tie, leftward⟩
    · omega
    · rw [groupsRight_eq known, Bool.not_eq_true', beq_eq_false_iff_ne] at leftward
      unfold OperatorInfo.rightBound at binds
      split at binds
      · omega
      · rename_i rightward
        exact leftward rightward

/-- A receiver that needs parentheses could not stand there without, unless it is a prefix
    operator. -/
theorem not_bare_receiver {receiver : Expr} {rest : List Symbol}
    (takes : receiver.TakesParts false) :
    ¬ (receiver.isLiteral = true ∨ ∃ symbol left right info, receiver = .binary symbol left right ∧
      grammar.binary? symbol = some info ∧ opensInfix grammar info.rightBound rest = false) := by
  rintro (literal | ⟨symbol, left, right, -, rfl, -⟩)
  · rcases takes rfl with takes | ⟨_, _, rfl⟩
    · cases receiver with
      | identifier | methodCall | call | property | list => cases literal
      | _ => cases takes
    · cases literal
  · exact takes.not_binary _ _ _ rfl

-- ============================================================================
-- From a part to the whole
-- ============================================================================

variable {expr receiver left right operand : Expr} {symbol name : String} {indexes : List String}
  {arguments exprs : List Expr}

theorem keeps_paired (inside : Encloses grammar (.bare expr []) before inner after)
    (keeps : (Stretch.bare expr []).Keeps grammar before inner after) :
    (Stretch.operand true expr).Keeps grammar (.bracket "(" :: before) inner
      (after ++ [.bracket ")"]) := by
  intro paired rest written
  replace written : Bracketed grammar (.tree paired expr) (.bracket "(" :: ((outline before ++
      (outline (spell grammar inner []) ++ outline after)) ++ [.bracket ")"])) rest := by
    simpa using written
  obtain ⟨-, other, bare⟩ := written.unpair (inside.balanced (balanced_spell expr []))
  left
  simpa using keeps.spare bare

theorem keeps_alone (keeps : (Stretch.bare expr []).Keeps grammar before inner after) :
    (Stretch.operand false expr).Keeps grammar before inner after := by
  intro paired rest written
  exact .inl (keeps.spare written)

theorem keeps_unary
    (keeps : (Stretch.operand (wrapsUnder grammar (unaryPriority grammar symbol) operand)
      operand).Keeps grammar before inner after) :
    (Stretch.bare (.unary symbol operand) []).Keeps grammar (.operator symbol :: before) inner
      after := by
  refine ⟨outline after, by simp [indexOutline], fun paired rest written => ?_⟩
  replace written : Bracketed grammar (.tree paired (.unary symbol operand)) (.operator symbol ::
      (outline before ++ (outline (spell grammar inner []) ++ outline after))) rest := by
    simpa using written
  obtain ⟨info, other, known, inside, bound, -⟩ := written.of_unary
  rcases keeps other rest inside with spare | ⟨wraps, rfl, literal | ⟨_, _, _, _, rfl, -⟩⟩
  · exact spare
  · cases operand with
    | binary => cases literal
    | _ => cases wraps
  · have binds := bound.binds rfl _ _ _ rfl
    rw [unaryPriority_eq known, wrapsUnder, decide_eq_true_eq] at wraps
    omega

theorem keeps_left (withoutPoint : grammar.WithoutPoint) (consistent : grammar.Consistent)
    (positive : ∀ symbol info, grammar.binary? symbol = some info → 0 < info.priority)
    (hleft : Spellable grammar keywords left)
    (inside : Encloses grammar (.operand (wrapsBeside grammar (binaryPriority grammar symbol)
      (groupsRight grammar symbol) left) left) before inner after)
    (keeps : (Stretch.operand (wrapsBeside grammar (binaryPriority grammar symbol)
      (groupsRight grammar symbol) left) left).Keeps grammar before inner after) :
    (Stretch.bare (.binary symbol left right) []).Keeps grammar before inner
      (after ++ .operator symbol :: wrap (wrapsBeside grammar (binaryPriority grammar symbol)
        (!groupsRight grammar symbol) right) (spell grammar right [])) := by
  refine ⟨_, (List.append_nil _).symm, fun paired rest written => ?_⟩
  replace written : Bracketed grammar (.tree paired (.binary symbol left right))
      ((outline before ++ (outline (spell grammar inner []) ++ outline after)) ++
        .operator symbol :: outline (wrap (wrapsBeside grammar (binaryPriority grammar symbol)
          (!groupsRight grammar symbol) right) (spell grammar right []))) rest := by
    simpa using written
  obtain ⟨-, info, first, -, known, bare, -⟩ := written.of_binary withoutPoint
    (inside.balanced (balanced_wrap _ (balanced_spell left [])))
    (inside.size_eq.trans (by rw [Stretch.symbols, size_wrap, hleft.size_eq]))
  rcases keeps first _ bare with spare | ⟨wraps, rfl, alone⟩
  · simpa using spare
  · exact absurd alone (not_bare_left consistent known (positive _ _ known) wraps)

theorem keeps_right (withoutPoint : grammar.WithoutPoint)
    (positive : ∀ symbol info, grammar.binary? symbol = some info → 0 < info.priority)
    (hleft : Spellable grammar keywords left)
    (keeps : (Stretch.operand (wrapsBeside grammar (binaryPriority grammar symbol)
      (!groupsRight grammar symbol) right) right).Keeps grammar before inner after) :
    (Stretch.bare (.binary symbol left right) []).Keeps grammar
      (wrap (wrapsBeside grammar (binaryPriority grammar symbol) (groupsRight grammar symbol)
        left) (spell grammar left []) ++ .operator symbol :: before) inner after := by
  refine ⟨_, (List.append_nil _).symm, fun paired rest written => ?_⟩
  replace written : Bracketed grammar (.tree paired (.binary symbol left right))
      (outline (wrap (wrapsBeside grammar (binaryPriority grammar symbol)
          (groupsRight grammar symbol) left) (spell grammar left [])) ++ .operator symbol ::
        (outline before ++ (outline (spell grammar inner []) ++ outline after))) rest := by
    simpa using written
  obtain ⟨-, info, -, second, known, -, bare, bound, -⟩ := written.of_binary withoutPoint
    (balanced_outline_iff.2 (balanced_wrap _ (balanced_spell left [])))
    (by rw [size_wrap, hleft.size_eq])
  rcases keeps second rest bare with spare | ⟨wraps, rfl, alone⟩
  · exact spare
  · exact absurd alone (not_bare_right known (positive _ _ known) bound wraps)

/-- A receiver before a part, which is a name or an index. -/
theorem keeps_receiver {behind : List Symbol} (keeps : (Stretch.operand (!takesParts receiver)
      receiver).Keeps grammar before inner after)
    (part : outline behind = [.operator ".", .leaf] ++ indexOutline indexes) :
    (Stretch.bare (.property receiver name) indexes).Keeps grammar before inner
      (after ++ behind) := by
  refine ⟨outline after ++ [.operator ".", .leaf], by simp [part], fun paired rest written => ?_⟩
  replace written : Bracketed grammar (.tree paired (.property receiver name))
      ((outline before ++ (outline (spell grammar inner []) ++ outline after)) ++
        [.operator ".", .leaf]) rest := by
    simpa using written
  obtain ⟨other, bare, takes⟩ := written.of_property
  rcases keeps other _ bare with spare | ⟨-, rfl, alone⟩
  · simpa using spare
  · exact absurd alone (not_bare_receiver takes)

theorem keeps_index
    (keeps : (Stretch.bare receiver (name :: indexes)).Keeps grammar before inner after) :
    (Stretch.bare (.property receiver name) indexes).Keeps grammar before inner after := by
  obtain ⟨behind, hafter, spare⟩ := keeps
  refine ⟨behind ++ [.operator ".", .leaf], by simp [hafter, indexOutline],
    fun paired rest written => ?_⟩
  replace written : Bracketed grammar (.tree paired (.property receiver name))
      ((outline before ++ (outline (spell grammar inner []) ++ behind)) ++
        [.operator ".", .leaf]) rest := by
    simpa using written
  obtain ⟨other, bare, -⟩ := written.of_property
  simpa using spare other _ bare

theorem keeps_owner (withoutPoint : grammar.WithoutPoint)
    (path : ∀ index ∈ indexes, IsIndex index) (howner : Spellable grammar keywords receiver)
    (inside : Encloses grammar (.operand (!takesParts receiver) receiver) before inner after)
    (keeps : (Stretch.operand (!takesParts receiver) receiver).Keeps grammar before inner after) :
    (Stretch.bare (.methodCall receiver name arguments) indexes).Keeps grammar before inner
      (after ++ .operator "." :: .word name :: .bracket "(" ::
        ([.operator ","].intercalate (spellAll grammar arguments) ++
          .bracket ")" :: indexSymbols indexes)) := by
  refine ⟨outline after ++ .operator "." :: .leaf :: .bracket "(" ::
    (outline ([.operator ","].intercalate (spellAll grammar arguments)) ++ [.bracket ")"]),
    by simp [outline_indexSymbols path], fun paired rest written => ?_⟩
  replace written : Bracketed grammar (.tree paired (.methodCall receiver name arguments))
      ((outline before ++ (outline (spell grammar inner []) ++ outline after)) ++
        .operator "." :: .leaf :: .bracket "(" ::
          (outline ([.operator ","].intercalate (spellAll grammar arguments)) ++
            [.bracket ")"])) rest := by
    simpa using written
  obtain ⟨other, bare, takes, -⟩ := written.of_method withoutPoint
    (inside.balanced (balanced_wrap _ (balanced_spell receiver [])))
    (inside.size_eq.trans (by rw [Stretch.symbols, size_wrap, howner.size_eq]))
  rcases keeps other _ bare with spare | ⟨-, rfl, alone⟩
  · simpa using spare
  · exact absurd alone (not_bare_receiver takes)

/-- The symbols of a sequence in brackets, with a path of indexes after them. -/
theorem keeps_of_sequence {kind : SequenceKind} {front : List Symbol} {whole : Expr}
    (path : ∀ index ∈ indexes, IsIndex index)
    (keeps : (Stretch.sequence exprs).Keeps grammar before inner after)
    (brackets : ∀ {paired symbols rest}, Bracketed grammar (.tree paired whole)
      (outline front ++ symbols) rest → Bracketed grammar (.sequence kind exprs) symbols rest) :
    (Stretch.bare whole indexes).Keeps grammar (front ++ before) inner
      (after ++ .bracket kind.close :: indexSymbols indexes) := by
  refine ⟨outline after ++ [.bracket kind.close], by simp [outline_indexSymbols path],
    fun paired rest written => ?_⟩
  have sequence : Bracketed grammar (.sequence kind exprs) (outline before ++
      (outline (spell grammar inner []) ++ (outline after ++ [.bracket kind.close]))) rest :=
    brackets (by simpa using written)
  simpa using keeps kind rest sequence

theorem keeps_argument (withoutPoint : grammar.WithoutPoint)
    (path : ∀ index ∈ indexes, IsIndex index) (howner : Spellable grammar keywords receiver)
    (keeps : (Stretch.sequence arguments).Keeps grammar before inner after) :
    (Stretch.bare (.methodCall receiver name arguments) indexes).Keeps grammar
      (wrap (!takesParts receiver) (spell grammar receiver []) ++
        .operator "." :: .word name :: .bracket "(" :: before) inner
      (after ++ .bracket ")" :: indexSymbols indexes) := by
  have whole := @keeps_of_sequence _ _ _ _ _ _ .arguments
    (wrap (!takesParts receiver) (spell grammar receiver []) ++
      [.operator ".", .word name, .bracket "("]) (.methodCall receiver name arguments) path keeps
  rw [List.append_assoc] at whole
  refine whole fun {paired symbols rest} written => ?_
  replace written : Bracketed grammar (.tree paired (.methodCall receiver name arguments))
      (outline (wrap (!takesParts receiver) (spell grammar receiver [])) ++
        .operator "." :: .leaf :: .bracket "(" :: symbols) rest := by
    simpa using written
  obtain ⟨-, -, -, sequence⟩ := written.of_method withoutPoint
    (balanced_outline_iff.2 (balanced_wrap _ (balanced_spell receiver [])))
    (by rw [size_wrap, howner.size_eq])
  exact sequence

theorem keeps_only (keeps : (Stretch.bare expr []).Keeps grammar before inner after) :
    (Stretch.sequence [expr]).Keeps grammar before inner after := by
  intro kind rest written
  replace written : Bracketed grammar (.sequence kind [expr])
      ((outline before ++ (outline (spell grammar inner []) ++ outline after)) ++
        [.bracket kind.close]) rest := by
    simpa using written
  obtain ⟨other, bare⟩ := written.of_single
  exact keeps.spare bare

theorem keeps_first (withoutPoint : grammar.WithoutPoint) {second : Expr}
    (hfirst : Spellable grammar keywords expr)
    (inside : Encloses grammar (.bare expr []) before inner after)
    (keeps : (Stretch.bare expr []).Keeps grammar before inner after) :
    (Stretch.sequence (expr :: second :: exprs)).Keeps grammar before inner
      (after ++ .operator "," ::
        [.operator ","].intercalate (spellAll grammar (second :: exprs))) := by
  intro kind rest written
  replace written : Bracketed grammar (.sequence kind (expr :: second :: exprs))
      ((outline before ++ (outline (spell grammar inner []) ++ outline after)) ++ .operator "," ::
        (outline ([.operator ","].intercalate (spellAll grammar (second :: exprs))) ++
          [.bracket kind.close])) rest := by
    simpa using written
  obtain ⟨⟨other, bare⟩, -⟩ := written.of_item withoutPoint
    (inside.size_eq.trans hfirst.size_eq)
  simpa using keeps.spare bare

theorem keeps_later (withoutPoint : grammar.WithoutPoint) {second : Expr}
    (hfirst : Spellable grammar keywords expr)
    (keeps : (Stretch.sequence (second :: exprs)).Keeps grammar before inner after) :
    (Stretch.sequence (expr :: second :: exprs)).Keeps grammar
      (spell grammar expr [] ++ .operator "," :: before) inner after := by
  intro kind rest written
  replace written : Bracketed grammar (.sequence kind (expr :: second :: exprs))
      (outline (spell grammar expr []) ++ .operator "," ::
        (outline before ++ (outline (spell grammar inner []) ++
          (outline after ++ [.bracket kind.close])))) rest := by
    simpa using written
  obtain ⟨-, others⟩ := written.of_item withoutPoint hfirst.size_eq
  exact keeps kind rest others

/-- The parentheses that the printer has put around a tree are spare wherever the symbols
    without them are still those of the whole. -/
theorem keeps (withoutPoint : grammar.WithoutPoint) (consistent : grammar.Consistent)
    (positive : ∀ symbol info, grammar.binary? symbol = some info → 0 < info.priority)
    (h : Encloses grammar stretch before inner after) (valid : stretch.Valid grammar keywords) :
    stretch.Keeps grammar before inner after := by
  induction h with
  | here plain => exact keeps_here withoutPoint valid plain
  | paired inside ih => exact keeps_paired inside (ih ⟨valid, by simp⟩)
  | alone _ ih => exact keeps_alone (ih ⟨valid, by simp⟩)
  | unary _ ih =>
    obtain ⟨whole, -⟩ := valid
    cases whole with
    | unary _ _ _ operand => exact keeps_unary (ih operand)
  | left inside ih =>
    obtain ⟨whole, -⟩ := valid
    cases whole with
    | binary _ _ left _ =>
      exact keeps_left withoutPoint consistent positive left inside (ih left)
  | right _ ih =>
    obtain ⟨whole, -⟩ := valid
    cases whole with
    | binary _ _ left right => exact keeps_right withoutPoint positive left (ih right)
  | word _ _ ih =>
    obtain ⟨whole, path⟩ := valid
    cases whole with
    | property owner _ => exact keeps_receiver (ih owner) (by simp [outline_indexSymbols path])
  | index index _ _ ih =>
    obtain ⟨whole, path⟩ := valid
    have isIndex := whole.isIndex index
    cases whole with
    | property owner _ => exact keeps_index (ih ⟨owner, List.forall_mem_cons.2 ⟨isIndex, path⟩⟩)
  | indexed index plain _ ih =>
    obtain ⟨whole, path⟩ := valid
    have part := outline_indexSymbols (List.forall_mem_cons.2 ⟨whole.isIndex index, path⟩)
    cases whole with
    | property owner _ =>
      refine keeps_receiver ?_ part
      rw [plain]
      exact ih owner
  | owner inside ih =>
    obtain ⟨whole, path⟩ := valid
    cases whole with
    | methodCall _ owner _ _ => exact keeps_owner withoutPoint path owner inside (ih owner)
  | argument _ ih =>
    obtain ⟨whole, path⟩ := valid
    cases whole with
    | methodCall _ owner _ each => exact keeps_argument withoutPoint path owner (ih each)
  | @call name _ _ _ _ _ _ ih =>
    obtain ⟨whole, path⟩ := valid
    cases whole with
    | call _ _ each =>
      exact @keeps_of_sequence _ _ _ _ _ _ .arguments [.word name, .bracket "("] _ path (ih each)
        Bracketed.of_call
  | list _ ih =>
    obtain ⟨whole, path⟩ := valid
    cases whole with
    | list _ each =>
      exact @keeps_of_sequence _ _ _ _ _ _ .items [.bracket "["] _ path (ih each)
        Bracketed.of_list
  | only _ ih => exact keeps_only (ih ⟨valid _ (by simp), by simp⟩)
  | first inside ih =>
    have first := valid _ List.mem_cons_self
    exact keeps_first withoutPoint first inside (ih ⟨first, by simp⟩)
  | later _ ih =>
    obtain ⟨first, others⟩ := List.forall_mem_cons.1 valid
    exact keeps_later withoutPoint first (ih others)

end Encloses

end ExprMachine
