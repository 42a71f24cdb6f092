/-
  ExprMachine.Proofs.Expr.Climbing

  Precedence climbing over names with infix operators between them, for every table of
  operators. The tree holds the names and operators in their order, and every operator
  has operands that bind more tightly than it, or as tightly on the side to which its
  priority groups.
-/
import ExprMachine.Proofs.Expr.RoundTrip

namespace ExprMachine

open ExprMachine.Expr

-- ============================================================================
-- Trees of names and infix operators
-- ============================================================================

namespace Expr

/-- The names and infix operators of a tree from left to right. A tree with anything
    else in it has no such reading. -/
def inOrder? : Expr → Option (List Symbol)
  | .identifier name => some [.word name]
  | .binary symbol left right => do
    let before ← left.inOrder?
    let after ← right.inOrder?
    return before ++ .operator symbol :: after
  | _ => none

/-- Whether a tree may be the operand on one side of an infix operator: an infix operator
    at its root binds more tightly, or as tightly if their priority groups to this side. -/
def standsBeside (grammar : Grammar) (symbol : String) (side : Associativity) : Expr → Bool
  | .binary inner _ _ =>
    match grammar.binary? symbol, grammar.binary? inner with
    | some outer, some info =>
      decide (outer.priority < info.priority) ||
        (info.priority == outer.priority && outer.associativity == side)
    | _, _ => false
  | _ => true

/-- Whether every infix operator of a tree has operands that may stand beside it. -/
def climbs (grammar : Grammar) : Expr → Bool
  | .binary symbol left right =>
    standsBeside grammar symbol .left left && standsBeside grammar symbol .right right &&
      climbs grammar left && climbs grammar right
  | _ => true

end Expr

/-- The symbols of names with infix operators between them. A point is no such operator,
    whatever the table says of it. -/
inductive Chain (grammar : Grammar) : List Symbol → Prop where
  | name {name} (plain : Symbol.literal? (.word name) = none) : Chain grammar [.word name]
  | operation {name symbol more} (plain : Symbol.literal? (.word name) = none)
      (known : (grammar.binary? symbol).isSome = true) (notPoint : symbol ≠ ".")
      (rest : Chain grammar more) : Chain grammar (.word name :: .operator symbol :: more)

-- ============================================================================
-- The row of a chain
-- ============================================================================

/-- Whether a piece of a row is a name or an infix operator. -/
inductive Item.Plain : Item → Prop where
  | name {name source} (plain : Symbol.literal? (.word name) = none) :
      Plain (.atom [.word name] source (.identifier name))
  | between {symbol} : Plain (.between symbol)

theorem Item.Plain.readable {grammar : Grammar} {item : Item} (h : item.Plain) :
    item.Readable grammar := by
  cases h with
  | name plain => exact fun tail htail => .operand (.name plain) (opensPart_eq_false htail)
  | between => trivial

theorem Chain.exists_row {grammar : Grammar} {symbols : List Symbol}
    (h : Chain grammar symbols) :
    ∃ items, Item.spelling items = symbols ∧ Alternates grammar true items ∧
      ∀ item ∈ items, item.Plain := by
  induction h with
  | @name name plain =>
    refine ⟨[.atom [.word name] (.identifier name) (.identifier name)], rfl, trivial, ?_⟩
    simpa using .name plain
  | @operation name symbol more plain known notPoint _ ih =>
    obtain ⟨items, rfl, turn, hplain⟩ := ih
    refine ⟨.atom [.word name] (.identifier name) (.identifier name) :: .between symbol :: items,
      rfl, ⟨known, notPoint, turn⟩, ?_⟩
    rw [List.forall_mem_cons, List.forall_mem_cons]
    exact ⟨.name plain, .between, hplain⟩

-- ============================================================================
-- Tables
-- ============================================================================

/-- A table is consistent if its entries are, those that count and those that do not. -/
theorem Grammar.consistent_of_table {grammar : Grammar}
    (h : ∀ entry ∈ grammar.binaryTable, ∀ other ∈ grammar.binaryTable,
      entry.2.priority = other.2.priority → entry.2.associativity = other.2.associativity) :
    grammar.Consistent := by
  have mem {symbol : String} {info : OperatorInfo} (known : grammar.binary? symbol = some info) :
      (symbol, info) ∈ grammar.binaryTable := by
    obtain ⟨front, back, htable, -⟩ := List.lookup_eq_some_iff.1 known
    rw [htable]
    exact List.mem_append_right _ List.mem_cons_self
  intro symbol symbol' info info' known known' same
  exact h _ (mem known) _ (mem known') same

-- ============================================================================
-- Nothing is lost or moved
-- ============================================================================

/-- The tree of a phrase that is no sequence. -/
def Phrase.tree? : Phrase → Option Expr
  | .expression _ expr | .chain _ expr | .operand expr | .stem expr => some expr
  | .sequence .. | .items .. => none

namespace Groups

variable {grammar : Grammar}

/-- A phrase takes the symbols that its tree has, in their order. -/
theorem inOrder {phrase : Phrase} {items rest : List Item}
    (h : Groups grammar phrase items rest) (plain : ∀ item ∈ items, item.Plain) :
    ∃ front, items = front ++ rest ∧
      ∀ expr, phrase.tree? = some expr → expr.inOrder? = some (Item.spelling front) := by
  induction h with
  | expression _ _ ih => exact ih plain
  | single _ ih => exact ih plain
  | @binary least symbol info left right items between rest _ _ _ _ ihLeft ihRight =>
    obtain ⟨front, rfl, hleft⟩ := ihLeft plain
    have plainBetween : ∀ item ∈ between, item.Plain :=
      fun item hitem => plain item (by simp [hitem])
    obtain ⟨back, rfl, hright⟩ := ihRight plainBetween
    refine ⟨front ++ .between symbol :: back, by simp, ?_⟩
    rintro expr ⟨⟩
    simp [inOrder?, hleft left rfl, hright right rfl, Item.symbols]
  | @atom symbols source expr rest =>
    refine ⟨[.atom symbols source expr], rfl, ?_⟩
    rintro expr ⟨⟩
    cases plain _ List.mem_cons_self
    rfl
  | @unary symbol info expr items rest =>
    have := plain (.before symbol) List.mem_cons_self
    cases this

end Groups

-- ============================================================================
-- Operands bind tightly enough
-- ============================================================================

/-- Whether an infix operator at the root of a tree is known and binds tightly enough. -/
def BindsAtLeast (grammar : Grammar) (least : Nat) (expr : Expr) : Prop :=
  ∀ symbol left right, expr = .binary symbol left right →
    ∃ info, grammar.binary? symbol = some info ∧ least ≤ info.priority

/-- Whether the right operand of an infix operator at the root of a tree goes no further,
    when this row follows. -/
def EndsBefore (grammar : Grammar) (rest : List Item) (expr : Expr) : Prop :=
  ∀ symbol left right info, expr = .binary symbol left right →
    grammar.binary? symbol = some info → opensBetween grammar info.rightBound rest = false

section Beside

variable {grammar : Grammar} {symbol : String} {info : OperatorInfo}

/-- What was read before an operator may be its left operand: the operator was not taken
    by the right operand of the one before it. -/
theorem standsBeside_left {expr : Expr} {least : Nat} {more : List Item}
    (consistent : grammar.Consistent) (known : grammar.binary? symbol = some info)
    (binds : BindsAtLeast grammar least expr)
    (ends : EndsBefore grammar (.between symbol :: more) expr) :
    standsBeside grammar symbol .left expr = true := by
  cases expr with
  | binary inner left right =>
    obtain ⟨infoInner, knownInner, -⟩ := binds _ _ _ rfl
    have hends := ends _ _ _ _ rfl knownInner
    have looser : info.priority < infoInner.rightBound := by
      simpa [opensBetween, known] using hends
    rw [standsBeside, known, knownInner]
    simp only [Bool.or_eq_true, decide_eq_true_eq, Bool.and_eq_true, beq_iff_eq]
    unfold OperatorInfo.rightBound at looser
    cases hside : infoInner.associativity with
    | left =>
      rw [hside] at looser
      rcases Nat.lt_or_eq_of_le (Nat.le_of_lt_succ looser) with tighter | same
      · exact .inl tighter
      · refine .inr ⟨same.symm, ?_⟩
        rw [consistent _ _ _ _ known knownInner same, hside]
    | right =>
      rw [hside] at looser
      exact .inl looser
  | _ => rfl

/-- What was read with the bound of an operator may be its right operand. -/
theorem standsBeside_right {expr : Expr} (known : grammar.binary? symbol = some info)
    (binds : BindsAtLeast grammar info.rightBound expr) :
    standsBeside grammar symbol .right expr = true := by
  cases expr with
  | binary inner left right =>
    obtain ⟨infoInner, knownInner, hbinds⟩ := binds _ _ _ rfl
    rw [standsBeside, known, knownInner]
    simp only [Bool.or_eq_true, decide_eq_true_eq, Bool.and_eq_true, beq_iff_eq]
    unfold OperatorInfo.rightBound at hbinds
    cases hside : info.associativity with
    | left =>
      rw [hside] at hbinds
      exact .inl hbinds
    | right =>
      rw [hside] at hbinds
      rcases Nat.lt_or_eq_of_le hbinds with tighter | same
      · exact .inl tighter
      · exact .inr ⟨same.symm, rfl⟩
  | _ => rfl

end Beside

/-- What precedence climbing keeps: the tree of a chain may be followed by an operator that
    it did not take. -/
def Phrase.Climbed (grammar : Grammar) (rest : List Item) : Phrase → Prop
  | .operand expr => ∃ name, expr = .identifier name
  | .chain least expr =>
    climbs grammar expr = true ∧ BindsAtLeast grammar least expr ∧ EndsBefore grammar rest expr
  | .expression least expr => climbs grammar expr = true ∧ BindsAtLeast grammar least expr
  | _ => True

theorem Groups.climbed {grammar : Grammar} {phrase : Phrase} {items rest : List Item}
    (consistent : grammar.Consistent) (h : Groups grammar phrase items rest)
    (plain : ∀ item ∈ items, item.Plain) : phrase.Climbed grammar rest := by
  induction h with
  | expression _ _ ih =>
    obtain ⟨hclimbs, binds, -⟩ := ih plain
    exact ⟨hclimbs, binds⟩
  | single _ ih =>
    obtain ⟨name, rfl⟩ := ih plain
    refine ⟨rfl, ?_, ?_⟩
    · rintro _ _ _ ⟨⟩
    · rintro _ _ _ _ ⟨⟩
  | @binary least symbol info left right items between rest chain known hleast expression
      ihLeft ihRight =>
    have plainBetween : ∀ item ∈ between, item.Plain := by
      obtain ⟨front, rfl, -⟩ := chain.exists_front
      exact fun item hitem => plain item (by simp [hitem])
    obtain ⟨climbsLeft, bindsLeft, endsLeft⟩ := ihLeft plain
    obtain ⟨climbsRight, bindsRight⟩ := ihRight plainBetween
    refine ⟨?_, ?_, ?_⟩
    · rw [climbs, standsBeside_left consistent known bindsLeft endsLeft,
        standsBeside_right known bindsRight, climbsLeft, climbsRight]
      rfl
    · rintro _ _ _ ⟨⟩
      exact ⟨info, known, hleast⟩
    · rintro _ _ _ info' ⟨⟩ known'
      obtain rfl := Option.some.inj (known.symm.trans known')
      cases expression with
      | expression _ done => exact done
  | atom =>
    cases plain _ List.mem_cons_self with
    | name => exact ⟨_, rfl⟩
  | @unary symbol =>
    have := plain (.before symbol) List.mem_cons_self
    cases this

-- ============================================================================
-- Parsing a chain
-- ============================================================================

namespace Expr

/-- Names with infix operators between them are parsed to the tree in which they stand in
    this order and each operator has its operands by the priorities, or nest too deeply. -/
theorem parse_chain {grammar : Grammar} {tokens : List Token} (consistent : grammar.Consistent)
    (chain : Chain grammar (Token.spelt tokens)) :
    (∃ tree, parse grammar tokens = .ok tree ∧ tree.inOrder? = some (Token.spelt tokens) ∧
        tree.climbs grammar = true) ∨
      ∃ error, parse grammar tokens = .error error ∧ error.code = "RB-P007" := by
  obtain ⟨items, spelling, turn, plain⟩ := chain.exists_row
  obtain ⟨tree, groups⟩ := Groups.exists_whole turn
  have reads : Reads grammar (.expression 0 tree) (Token.spelt tokens) [] := by
    have := groups.reads turn (fun item hitem => (plain item hitem).readable) .nil
    simpa [spelling] using this
  rcases parse_of_reads reads with parsed | ⟨error, failed, cause⟩
  · refine .inl ⟨tree, parsed, ?_, (groups.climbed consistent plain).1⟩
    obtain ⟨front, hfront, hinOrder⟩ := groups.inOrder plain
    rw [List.append_nil] at hfront
    rw [hinOrder tree rfl, ← hfront, spelling]
  · exact .inr ⟨error, failed, by rw [ParseError.code, cause]⟩

/-- A power that groups to the right, between differences that group to the left. -/
theorem parse_chain_power : ∃ grammar tokens tree,
    Token.scan Token.standardKeywords "a-b^c^d-e" = .ok tokens ∧
      grammar.binary? "^" = some ⟨7, .right⟩ ∧ parse grammar tokens = .ok tree ∧
        tree.inOrder? = some (Token.spelt tokens) ∧ tree.climbs grammar = true := by
  let grammar := (Grammar.empty.withBinary "-" 4 .left).withBinary "^" 7 .right
  have consistent : grammar.Consistent := Grammar.consistent_of_table (by decide)
  have parsed : ∃ tokens tree, Token.scan Token.standardKeywords "a-b^c^d-e" = .ok tokens ∧
      Token.spelt tokens = [.word "a", .operator "-", .word "b", .operator "^", .word "c",
        .operator "^", .word "d", .operator "-", .word "e"] ∧ parse grammar tokens = .ok tree :=
    ⟨_, _, by with_unfolding_all rfl, by with_unfolding_all rfl, by with_unfolding_all rfl⟩
  obtain ⟨tokens, tree, scanned, spelling, parsed⟩ := parsed
  have chain : Chain grammar (Token.spelt tokens) := by
    rw [spelling]
    exact .operation rfl rfl (by decide) <| .operation rfl rfl (by decide) <|
      .operation rfl rfl (by decide) <| .operation rfl rfl (by decide) <| .name rfl
  rcases parse_chain consistent chain with ⟨same, parsed', reading⟩ | ⟨error, failed, -⟩
  · exact ⟨grammar, tokens, same, scanned, rfl, parsed', reading⟩
  · cases parsed.symm.trans failed

end Expr

end ExprMachine
