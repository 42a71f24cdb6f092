/-
  ExprMachine.Proofs.Expr.Grouping

  Precedence climbing over a row of operators and finished operands, and when it gives
  a printed tree back. The printer puts parentheses around some operands; the others
  lie open in the row, and their operators have to group as they did in the tree.
-/
import ExprMachine.Expr.Printer
import ExprMachine.Proofs.Expr.Induction
import ExprMachine.Proofs.Expr.Reading

namespace ExprMachine

-- ============================================================================
-- Rows of operators and operands
-- ============================================================================

/-- A piece of a row: a prefix operator, an infix operator, or an operand that is
    finished before the operators around it are looked at. The operand comes with the
    symbols that spell it, the tree they were printed from and the tree they are read
    as. -/
inductive Item where
  | before (symbol : String)
  | between (symbol : String)
  | atom (symbols : List Symbol) (source expr : Expr)

/-- The number of operators and operands of a tree. -/
def Expr.weight : Expr → Nat
  | .unary _ operand => operand.weight + 1
  | .binary _ left right => left.weight + right.weight + 1
  | _ => 1

theorem Expr.weight_pos (expr : Expr) : 0 < expr.weight := by
  cases expr <;> simp [Expr.weight]

namespace Item

/-- The symbols of a piece. -/
def symbols : Item → List Symbol
  | .before symbol | .between symbol => [.operator symbol]
  | .atom symbols _ _ => symbols

/-- The number of operators and operands in the tree of a piece. -/
def weight : Item → Nat
  | .before _ | .between _ => 1
  | .atom _ _ expr => expr.weight

/-- Whether an operand is read as it was. -/
def Exact : Item → Prop
  | .atom _ source expr => expr = source
  | _ => True

/-- The symbols of a row. -/
def spelling (items : List Item) : List Symbol :=
  items.flatMap symbols

/-- The number of operators and operands in a row. -/
def total : List Item → Nat
  | [] => 0
  | item :: items => item.weight + total items

theorem weight_pos (item : Item) : 0 < item.weight := by
  cases item with
  | atom _ _ expr => exact expr.weight_pos
  | _ => exact Nat.one_pos

@[simp] theorem spelling_nil : spelling [] = [] := rfl

@[simp] theorem spelling_cons (item : Item) (items : List Item) :
    spelling (item :: items) = item.symbols ++ spelling items := by
  simp [spelling]

@[simp] theorem spelling_append (items more : List Item) :
    spelling (items ++ more) = spelling items ++ spelling more := by
  simp [spelling]

@[simp] theorem total_nil : total [] = 0 := rfl

@[simp] theorem total_cons (item : Item) (items : List Item) :
    total (item :: items) = item.weight + total items := rfl

@[simp] theorem total_append (items more : List Item) :
    total (items ++ more) = total items + total more := by
  induction items with
  | nil => rw [List.nil_append, total_nil, Nat.zero_add]
  | cons item items ih => rw [List.cons_append, total_cons, total_cons, ih, Nat.add_assoc]

theorem eq_nil_of_total {items : List Item} (h : total items = 0) : items = [] := by
  cases items with
  | nil => rfl
  | cons item items =>
    have := item.weight_pos
    rw [total_cons] at h
    omega

/-- A row splits in one way into two of given weights. -/
theorem append_inj_of_total {front rest front' rest' : List Item}
    (h : front ++ rest = front' ++ rest') (weights : total front = total front') :
    front = front' ∧ rest = rest' := by
  rcases List.append_eq_append_iff.1 h with ⟨more, rfl, rfl⟩ | ⟨more, rfl, rfl⟩
  all_goals
    rw [total_append] at weights
    obtain rfl : more = [] := eq_nil_of_total (by omega)
    simp

end Item

-- ============================================================================
-- Grouping
-- ============================================================================

/-- Whether an infix operator of at least the given priority stands here. -/
def opensBetween (grammar : Grammar) (least : Nat) : List Item → Bool
  | .between symbol :: _ => (grammar.binary? symbol).any (least ≤ ·.priority)
  | _ => false

/-- `Groups grammar phrase items rest`: precedence climbing makes the phrase from the
    front of the row and leaves the rest. -/
inductive Groups (grammar : Grammar) : Phrase → List Item → List Item → Prop where
  | expression {least expr items rest} (chain : Groups grammar (.chain least expr) items rest)
      (done : opensBetween grammar least rest = false) :
      Groups grammar (.expression least expr) items rest
  | single {least expr items rest} (operand : Groups grammar (.operand expr) items rest) :
      Groups grammar (.chain least expr) items rest
  | binary {least symbol info left right items between rest}
      (chain : Groups grammar (.chain least left) items (.between symbol :: between))
      (known : grammar.binary? symbol = some info) (binds : least ≤ info.priority)
      (expression : Groups grammar (.expression info.rightBound right) between rest) :
      Groups grammar (.chain least (.binary symbol left right)) items rest
  | atom {symbols source expr rest} :
      Groups grammar (.operand expr) (.atom symbols source expr :: rest) rest
  | unary {symbol info expr items rest} (known : grammar.unary? symbol = some info)
      (expression : Groups grammar (.expression info.priority expr) items rest) :
      Groups grammar (.operand (.unary symbol expr)) (.before symbol :: items) rest

/-- The weight of the tree of a phrase. -/
def Phrase.weight : Phrase → Nat
  | .expression _ expr | .chain _ expr | .operand expr | .stem expr => expr.weight
  | .sequence .. | .items .. => 0

namespace Groups

variable {grammar : Grammar}

/-- A phrase takes as many operators and operands as its tree has. -/
theorem exists_front {phrase : Phrase} {items rest : List Item}
    (h : Groups grammar phrase items rest) :
    ∃ front, items = front ++ rest ∧ Item.total front = phrase.weight := by
  induction h with
  | expression _ _ ih => exact ih
  | single _ ih => exact ih
  | @binary least symbol info left right items between rest _ _ _ _ ihLeft ihRight =>
    obtain ⟨front, rfl, hfront⟩ := ihLeft
    obtain ⟨back, rfl, hback⟩ := ihRight
    refine ⟨front ++ .between symbol :: back, by simp, ?_⟩
    simp only [Phrase.weight, Expr.weight, Item.total_append, Item.total_cons,
      Item.weight] at hfront hback ⊢
    omega
  | @atom symbols source expr rest =>
    exact ⟨[.atom symbols source expr], rfl, by simp [Item.weight, Phrase.weight]⟩
  | @unary symbol info expr items rest _ _ ih =>
    obtain ⟨front, rfl, hfront⟩ := ih
    refine ⟨.before symbol :: front, rfl, ?_⟩
    simp only [Phrase.weight, Expr.weight, Item.total_cons, Item.weight] at hfront ⊢
    omega

/-- What is left after a phrase is determined by the weight of its tree. -/
theorem rest_eq {phrase : Phrase} {front rest rest' : List Item}
    (h : Groups grammar phrase (front ++ rest') rest)
    (weights : Item.total front = phrase.weight) : rest = rest' := by
  obtain ⟨front', hfront, hweights⟩ := h.exists_front
  exact (Item.append_inj_of_total hfront (weights.trans hweights.symm)).2.symm

end Groups

-- ============================================================================
-- Every row that alternates is grouped
-- ============================================================================

/-- Whether operators and operands of a row come in turn, where an operand, or an
    infix operator or the end, is due. -/
def Alternates (grammar : Grammar) : (operand : Bool) → List Item → Prop
  | true, .atom .. :: rest => Alternates grammar false rest
  | true, .before symbol :: rest =>
    (grammar.unary? symbol).isSome = true ∧ Alternates grammar true rest
  | false, .between symbol :: rest =>
    (grammar.binary? symbol).isSome = true ∧ symbol ≠ "." ∧ Alternates grammar true rest
  | false, [] => True
  | _, _ => False

namespace Groups

variable {grammar : Grammar}

/-- After a phrase an infix operator or the end is due. -/
theorem alternates {phrase : Phrase} {items rest : List Item}
    (h : Groups grammar phrase items rest) (turn : Alternates grammar true items) :
    Alternates grammar false rest := by
  induction h with
  | expression _ _ ih => exact ih turn
  | single _ ih => exact ih turn
  | binary _ _ _ _ ihLeft ihRight => exact ihRight (ihLeft turn).2.2
  | atom => exact turn
  | unary _ _ ih => exact ih turn.2

theorem length_lt {phrase : Phrase} {items rest : List Item}
    (h : Groups grammar phrase items rest) (pos : 0 < phrase.weight) :
    rest.length < items.length := by
  obtain ⟨front, rfl, hfront⟩ := h.exists_front
  cases front with
  | nil =>
    simp only [Item.total_nil] at hfront
    omega
  | cons item front =>
    simp only [List.length_append, List.length_cons]
    omega

/-- A chain takes further operators until one does not bind tightly enough, if the rows
    after these operators are grouped. -/
theorem exists_expression_of_chain {least : Nat} {items rest : List Item} {left : Expr}
    (shorter : ∀ {least : Nat} {row : List Item}, row.length < rest.length →
      Alternates grammar true row → ∃ expr left, Groups grammar (.expression least expr) row left)
    (turn : Alternates grammar false rest) (chain : Groups grammar (.chain least left) items rest) :
    ∃ expr left, Groups grammar (.expression least expr) items left := by
  induction hlength : rest.length using Nat.strongRecOn generalizing left rest with
  | _ length ih =>
    subst hlength
    cases hopens : opensBetween grammar least rest with
    | false => exact ⟨left, rest, .expression chain hopens⟩
    | true =>
      match rest, hopens, turn with
      | .between symbol :: between, hopens, turn =>
        obtain ⟨info, known, binds⟩ := (Option.any_eq_true _ _).1 hopens
        obtain ⟨right, after, hright⟩ :=
          @shorter info.rightBound between (by simp) turn.2.2
        have hlt := hright.length_lt right.weight_pos
        refine @ih after.length (by simp only [List.length_cons]; omega) after _
          (fun h => shorter (by simp only [List.length_cons]; omega))
          (hright.alternates turn.2.2)
          (.binary chain known (by simpa using binds) hright) rfl

/-- Every row of operators and operands in turn is grouped. -/
theorem exists_expression {least : Nat} {items : List Item}
    (turn : Alternates grammar true items) :
    ∃ expr rest, Groups grammar (.expression least expr) items rest := by
  induction hlength : items.length using Nat.strongRecOn generalizing least items with
  | _ length ih =>
    subst hlength
    obtain ⟨expr, rest, operand⟩ :
        ∃ expr rest, Groups grammar (.operand expr) items rest := by
      match items, turn with
      | .atom symbols source expr :: rest, _ => exact ⟨expr, rest, .atom⟩
      | .before symbol :: rest, turn =>
        obtain ⟨info, known⟩ := Option.isSome_iff_exists.1 turn.1
        obtain ⟨expr, left, h⟩ := @ih rest.length (by simp) info.priority rest turn.2 rfl
        exact ⟨_, _, .unary known h⟩
    have hlt := operand.length_lt expr.weight_pos
    exact exists_expression_of_chain (fun h turn => ih _ (by omega) turn rfl)
      (operand.alternates turn) (.single operand)

/-- Without a bound on the priorities the whole row is grouped. -/
theorem exists_whole {items : List Item} (turn : Alternates grammar true items) :
    ∃ expr, Groups grammar (.expression 0 expr) items [] := by
  obtain ⟨expr, rest, h⟩ := @exists_expression grammar 0 items turn
  have hrest := h.alternates turn
  cases h with
  | expression chain done =>
    match rest, hrest, done with
    | [], _, _ => exact ⟨expr, .expression chain rfl⟩
    | .between symbol :: _, hrest, done =>
      obtain ⟨info, known⟩ := Option.isSome_iff_exists.1 hrest.1
      simp [opensBetween, known] at done

end Groups

end ExprMachine
