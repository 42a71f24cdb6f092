/-
  ExprMachine.Proofs.Expr.Nesting

  How many levels of expressions open inside each other while a phrase is read: one for
  every expression, whether brackets, a prefix operator or the right side of an infix
  operator opens it. Parts and the operators of a chain open none by themselves. Of what
  is left after a phrase only the first symbol matters, and whatever may follow every
  expression may stand there.
-/
import ExprMachine.Proofs.Expr.Reading

namespace ExprMachine

open Reading

/-- `Nests grammar levels phrase symbols rest`: the phrase is read as by `Reads`, and so
    many levels of expressions open for it. -/
inductive Nests (grammar : Grammar) : Nat → Phrase → List Symbol → List Symbol → Prop where
  | expression {n least expr symbols rest}
      (chain : Nests grammar n (.chain least expr) symbols rest)
      (done : opensInfix grammar least rest = false) :
      Nests grammar (n + 1) (.expression least expr) symbols rest
  | single {n least expr symbols rest} (operand : Nests grammar n (.operand expr) symbols rest) :
      Nests grammar n (.chain least expr) symbols rest
  | binary {m n least symbol info left right symbols between rest}
      (chain : Nests grammar m (.chain least left) symbols (.operator symbol :: between))
      (known : grammar.binary? symbol = some info) (binds : least ≤ info.priority)
      (expression : Nests grammar n (.expression info.rightBound right) between rest) :
      Nests grammar (max m n) (.chain least (.binary symbol left right)) symbols rest
  | literal {symbol expr rest} (denotes : Symbol.literal? symbol = some expr) :
      Nests grammar 0 (.operand expr) (symbol :: rest) rest
  | operand {n expr symbols rest} (stem : Nests grammar n (.stem expr) symbols rest)
      (done : opensPart expr rest = false) : Nests grammar n (.operand expr) symbols rest
  | unary {n symbol info expr symbols rest} (known : grammar.unary? symbol = some info)
      (expression : Nests grammar n (.expression info.priority expr) symbols rest) :
      Nests grammar n (.stem (.unary symbol expr)) (.operator symbol :: symbols) rest
  | parentheses {n expr symbols rest}
      (expression : Nests grammar n (.expression 0 expr) symbols (.bracket ")" :: rest)) :
      Nests grammar n (.stem expr) (.bracket "(" :: symbols) rest
  | list {n items symbols rest}
      (sequence : Nests grammar n (.sequence .items items) symbols rest) :
      Nests grammar n (.stem (.list items)) (.bracket "[" :: symbols) rest
  | name {name rest} (plain : Symbol.literal? (.word name) = none) :
      Nests grammar 0 (.stem (.identifier name)) (.word name :: rest) rest
  | call {m n name arguments symbols between rest}
      (stem : Nests grammar m (.stem (.identifier name)) symbols (.bracket "(" :: between))
      (sequence : Nests grammar n (.sequence .arguments arguments) between rest) :
      Nests grammar (max m n) (.stem (.call name arguments)) symbols rest
  | property {n expr name symbols rest}
      (stem : Nests grammar n (.stem expr) symbols (.operator "." :: .word name :: rest))
      (done : opensArguments rest = false) :
      Nests grammar n (.stem (.property expr name)) symbols rest
  | method {m n expr name arguments symbols between rest}
      (stem : Nests grammar m (.stem expr) symbols
        (.operator "." :: .word name :: .bracket "(" :: between))
      (sequence : Nests grammar n (.sequence .arguments arguments) between rest) :
      Nests grammar (max m n) (.stem (.methodCall expr name arguments)) symbols rest
  | indexes {n expr value path symbols rest}
      (stem : Nests grammar n (.stem expr) symbols (.number value :: rest))
      (point : (Symbol.number value).isIndexes = true)
      (denotes : Expr.indexPath value = some path) :
      Nests grammar n (.stem (path.foldl .property expr)) symbols rest
  | empty {kind rest} : Nests grammar 0 (.sequence kind []) (.bracket kind.close :: rest) rest
  | sequence {n kind exprs symbols rest}
      (items : Nests grammar n (.items kind exprs) symbols rest) :
      Nests grammar n (.sequence kind exprs) symbols rest
  | last {n kind expr symbols rest} (plain : symbols.head? ≠ some (.operator ","))
      (expression :
        Nests grammar n (.expression 0 expr) symbols (.bracket kind.close :: rest)) :
      Nests grammar n (.items kind [expr]) symbols rest
  | item {m n kind expr exprs symbols between rest}
      (plain : symbols.head? ≠ some (.operator ","))
      (expression : Nests grammar m (.expression 0 expr) symbols (.operator "," :: between))
      (items : Nests grammar n (.items kind exprs) between rest) :
      Nests grammar (max m n) (.items kind (expr :: exprs)) symbols rest

variable {grammar : Grammar} {phrase : Phrase} {symbols rest : List Symbol}

theorem Nests.reads {n : Nat} (h : Nests grammar n phrase symbols rest) :
    Reads grammar phrase symbols rest := by
  induction h with
  | expression _ done ih => exact .expression ih done
  | single _ ih => exact .single ih
  | binary _ known binds _ ihLeft ihRight => exact .binary ihLeft known binds ihRight
  | literal denotes => exact .literal denotes
  | operand _ done ih => exact .operand ih done
  | unary known _ ih => exact .unary known ih
  | parentheses _ ih => exact .parentheses ih
  | list _ ih => exact .list ih
  | name plain => exact .name plain
  | call _ _ ih ihArguments => exact .call ih ihArguments
  | property _ done ih => exact .property ih done
  | method _ _ ih ihArguments => exact .method ih ihArguments
  | indexes _ point denotes ih => exact .indexes ih point denotes
  | empty => exact .empty
  | sequence _ ih => exact .sequence ih
  | last plain _ ih => exact .last plain ih
  | item plain _ _ ih ihItems => exact .item plain ih ihItems

/-- Whatever can be read opens some number of levels. -/
theorem Reads.exists_nests (h : Reads grammar phrase symbols rest) :
    ∃ n, Nests grammar n phrase symbols rest := by
  induction h with
  | expression _ done ih => exact ih.elim fun _ h => ⟨_, .expression h done⟩
  | single _ ih => exact ih.elim fun _ h => ⟨_, .single h⟩
  | binary _ known binds _ ihLeft ihRight =>
    obtain ⟨_, left⟩ := ihLeft
    obtain ⟨_, right⟩ := ihRight
    exact ⟨_, .binary left known binds right⟩
  | literal denotes => exact ⟨_, .literal denotes⟩
  | operand _ done ih => exact ih.elim fun _ h => ⟨_, .operand h done⟩
  | unary known _ ih => exact ih.elim fun _ h => ⟨_, .unary known h⟩
  | parentheses _ ih => exact ih.elim fun _ h => ⟨_, .parentheses h⟩
  | list _ ih => exact ih.elim fun _ h => ⟨_, .list h⟩
  | name plain => exact ⟨_, .name plain⟩
  | call _ _ ih ihArguments =>
    obtain ⟨_, stem⟩ := ih
    obtain ⟨_, arguments⟩ := ihArguments
    exact ⟨_, .call stem arguments⟩
  | property _ done ih => exact ih.elim fun _ h => ⟨_, .property h done⟩
  | method _ _ ih ihArguments =>
    obtain ⟨_, stem⟩ := ih
    obtain ⟨_, arguments⟩ := ihArguments
    exact ⟨_, .method stem arguments⟩
  | indexes _ point denotes ih => exact ih.elim fun _ h => ⟨_, .indexes h point denotes⟩
  | empty => exact ⟨_, .empty⟩
  | sequence _ ih => exact ih.elim fun _ h => ⟨_, .sequence h⟩
  | last plain _ ih => exact ih.elim fun _ h => ⟨_, .last plain h⟩
  | item plain _ _ ih ihItems =>
    obtain ⟨_, first⟩ := ih
    obtain ⟨_, others⟩ := ihItems
    exact ⟨_, .item plain first others⟩

-- ============================================================================
-- What follows a whole expression
-- ============================================================================

/-- Whether no part of any tree starts here. -/
def Reading.startsPart (symbols : List Symbol) : Bool :=
  opensPart (.identifier "") symbols

theorem opensPart_eq_false {left : Expr} {symbols : List Symbol}
    (h : startsPart symbols = false) : opensPart left symbols = false := by
  simp only [startsPart, opensPart, Expr.isIdentifier, Bool.and_true, Bool.or_eq_false_iff] at h
  simp [opensPart, h]

theorem opensArguments_eq_false {symbols : List Symbol} (h : startsPart symbols = false) :
    opensArguments symbols = false := by
  simp only [startsPart, opensPart, Expr.isIdentifier, Bool.and_true, Bool.or_eq_false_iff] at h
  exact h.2

/-- What may follow a whole expression: no part of it and no infix operator. -/
structure Ends (grammar : Grammar) (tail : List Symbol) : Prop where
  noPart : startsPart tail = false
  noOperator : opensInfix grammar 0 tail = false

namespace Ends

theorem nil : Ends grammar [] := ⟨rfl, rfl⟩

theorem close {kind : SequenceKind} {rest : List Symbol} :
    Ends grammar (.bracket kind.close :: rest) := by
  constructor
  · cases kind <;> simp [startsPart, opensPart, opensArguments, Symbol.isIndexes,
      SequenceKind.close]
  · simp [opensInfix]

theorem opensInfix_eq_false {least : Nat} {tail : List Symbol} (ends : Ends grammar tail) :
    opensInfix grammar least tail = false := by
  have := ends.noOperator
  cases tail with
  | nil => rfl
  | cons symbol tail =>
    cases known : grammar.binary? symbol.value with
    | none => simp [opensInfix, known]
    | some info => simpa [opensInfix, known] using fun h => by simp [opensInfix, known, h] at this

end Ends

-- ============================================================================
-- Other symbols after a phrase
-- ============================================================================

/-- What may stand after a phrase in place of the symbols that do: others that start with
    the same one, or such as may follow every expression. -/
def Reading.Replaces (grammar : Grammar) (rest other : List Symbol) : Prop :=
  other.head? = rest.head? ∨ Ends grammar other

section Replace

variable {n : Nat} {other : List Symbol}

theorem opensInfix_of_replaces {least : Nat} (h : opensInfix grammar least rest = false)
    (replaces : Replaces grammar rest other) : opensInfix grammar least other = false := by
  rcases replaces with same | ends
  · rwa [opensInfix, same]
  · exact ends.opensInfix_eq_false

theorem opensPart_of_replaces {left : Expr} (h : opensPart left rest = false)
    (replaces : Replaces grammar rest other) : opensPart left other = false := by
  rcases replaces with same | ends
  · rwa [opensPart, opensArguments, same]
  · exact opensPart_eq_false ends.noPart

theorem opensArguments_of_replaces (h : opensArguments rest = false)
    (replaces : Replaces grammar rest other) : opensArguments other = false := by
  rcases replaces with same | ends
  · rwa [opensArguments, same]
  · exact opensArguments_eq_false ends.noPart

/-- A phrase is read in the same way, with as many levels, when other symbols follow it. -/
theorem Nests.exists_front (h : Nests grammar n phrase symbols rest) :
    ∃ front, symbols = front ++ rest ∧ ∀ other, Replaces grammar rest other →
      Nests grammar n phrase (front ++ other) other := by
  have sameHead {symbol : Symbol} {rest other : List Symbol} :
      Replaces grammar (symbol :: rest) (symbol :: other) := .inl rfl
  induction h with
  | expression _ done ih =>
    obtain ⟨front, rfl, again⟩ := ih
    exact ⟨front, rfl, fun other h => .expression (again other h) (opensInfix_of_replaces done h)⟩
  | single _ ih =>
    obtain ⟨front, rfl, again⟩ := ih
    exact ⟨front, rfl, fun other h => .single (again other h)⟩
  | @binary _ _ _ symbol _ _ _ _ _ _ _ known binds _ ihLeft ihRight =>
    obtain ⟨left, rfl, againLeft⟩ := ihLeft
    obtain ⟨right, rfl, againRight⟩ := ihRight
    refine ⟨left ++ .operator symbol :: right, by simp, fun other h => ?_⟩
    rw [List.append_assoc]
    exact .binary (againLeft _ sameHead) known binds (againRight other h)
  | @literal symbol _ _ denotes => exact ⟨[symbol], rfl, fun other _ => .literal denotes⟩
  | operand _ done ih =>
    obtain ⟨front, rfl, again⟩ := ih
    exact ⟨front, rfl, fun other h => .operand (again other h) (opensPart_of_replaces done h)⟩
  | unary known _ ih =>
    obtain ⟨front, rfl, again⟩ := ih
    exact ⟨_ :: front, rfl, fun other h => .unary known (again other h)⟩
  | parentheses _ ih =>
    obtain ⟨front, rfl, again⟩ := ih
    refine ⟨.bracket "(" :: (front ++ [.bracket ")"]), by simp, fun other _ => ?_⟩
    rw [List.cons_append, List.append_assoc]
    exact .parentheses (again _ sameHead)
  | list _ ih =>
    obtain ⟨front, rfl, again⟩ := ih
    exact ⟨_ :: front, rfl, fun other h => .list (again other h)⟩
  | @name name _ plain => exact ⟨[.word name], rfl, fun other _ => .name plain⟩
  | call _ _ ihStem ihSequence =>
    obtain ⟨stem, rfl, againStem⟩ := ihStem
    obtain ⟨front, rfl, again⟩ := ihSequence
    refine ⟨stem ++ .bracket "(" :: front, by simp, fun other h => ?_⟩
    rw [List.append_assoc]
    exact .call (againStem _ sameHead) (again other h)
  | @property _ _ name _ _ _ done ih =>
    obtain ⟨stem, rfl, again⟩ := ih
    refine ⟨stem ++ [.operator ".", .word name], by simp, fun other h => ?_⟩
    rw [List.append_assoc]
    exact .property (again _ sameHead) (opensArguments_of_replaces done h)
  | @method _ _ _ name _ _ _ _ _ _ ihStem ihSequence =>
    obtain ⟨stem, rfl, againStem⟩ := ihStem
    obtain ⟨front, rfl, again⟩ := ihSequence
    refine ⟨stem ++ .operator "." :: .word name :: .bracket "(" :: front, by simp,
      fun other h => ?_⟩
    rw [List.append_assoc]
    exact .method (againStem _ sameHead) (again other h)
  | @indexes _ _ value _ _ _ _ point denotes ih =>
    obtain ⟨stem, rfl, again⟩ := ih
    refine ⟨stem ++ [.number value], by simp, fun other _ => ?_⟩
    rw [List.append_assoc]
    exact .indexes (again _ sameHead) point denotes
  | @empty kind _ => exact ⟨[.bracket kind.close], rfl, fun other _ => .empty⟩
  | sequence _ ih =>
    obtain ⟨front, rfl, again⟩ := ih
    exact ⟨front, rfl, fun other h => .sequence (again other h)⟩
  | @last _ kind _ _ _ plain _ ih =>
    obtain ⟨front, rfl, again⟩ := ih
    refine ⟨front ++ [.bracket kind.close], by simp, fun other _ => ?_⟩
    rw [List.append_assoc]
    refine .last ?_ (again _ sameHead)
    cases front with
    | nil => exact plain
    | cons => exact plain
  | item plain _ _ ih ihItems =>
    obtain ⟨front, rfl, again⟩ := ih
    obtain ⟨others, rfl, againOthers⟩ := ihItems
    refine ⟨front ++ .operator "," :: others, by simp, fun other h => ?_⟩
    rw [List.append_assoc]
    refine .item ?_ (again _ sameHead) (againOthers other h)
    cases front with
    | nil => exact plain
    | cons => exact plain

theorem Reads.exists_front (h : Reads grammar phrase symbols rest) :
    ∃ front, symbols = front ++ rest ∧ ∀ other, Replaces grammar rest other →
      Reads grammar phrase (front ++ other) other := by
  obtain ⟨n, nests⟩ := h.exists_nests
  obtain ⟨front, hfront, again⟩ := nests.exists_front
  exact ⟨front, hfront, fun other replaces => (again other replaces).reads⟩

/-- What is left is an end of the symbols. -/
theorem Reads.suffix (h : Reads grammar phrase symbols rest) : rest <:+ symbols := by
  obtain ⟨front, rfl, -⟩ := h.exists_front
  exact List.suffix_append front rest

/-- A phrase stays complete when something follows that it cannot take. -/
theorem Reads.extend {tail : List Symbol} (h : Reads grammar phrase symbols rest)
    (ends : Ends grammar tail) : Reads grammar phrase (symbols ++ tail) (rest ++ tail) := by
  obtain ⟨front, rfl, again⟩ := h.exists_front
  rw [List.append_assoc]
  apply again
  cases rest with
  | nil => exact .inr ends
  | cons => exact .inl rfl

end Replace

end ExprMachine
