/-
  ExprMachine.Proofs.Expr.Receivers

  What parts are taken of. In a source without parentheses for grouping a part belongs to
  the operand in front of it, and a prefix operator applies to the operand with all its
  parts, unless the operand is a literal of one token. Such a literal takes no parts, and
  leaves those that follow to the prefix operator in front of it.
-/
import ExprMachine.Proofs.Expr.Embedding

namespace ExprMachine

-- ============================================================================
-- Receivers in a tree
-- ============================================================================

namespace Expr

mutual

/-- The trees that parts are taken of: the receivers of properties and methods. -/
def receivers : Expr → List Expr
  | .property receiver _ => receiver :: receivers receiver
  | .methodCall receiver _ arguments => receiver :: (receivers receiver ++ receiversAll arguments)
  | .unary _ operand => receivers operand
  | .binary _ left right => receivers left ++ receivers right
  | .call _ arguments => receiversAll arguments
  | .list items => receiversAll items
  | .identifier _ | .bool _ | .nil | .float _ | .int _ | .text _ => []

/-- The receivers in some trees, one after the other. -/
def receiversAll : List Expr → List Expr
  | [] => []
  | expr :: exprs => receivers expr ++ receiversAll exprs

end

/-- Whether the last operand, to the right of all operators at the root, is a literal of
    one token. -/
def endsInLiteral : Expr → Bool
  | .unary _ operand => endsInLiteral operand
  | .binary _ _ right => endsInLiteral right
  | expr => expr.isLiteral

/-- A path of indexes is taken of the tree in front of it, and each index but the first of
    the index before. -/
theorem receivers_indexes {path : List String} (nonempty : path ≠ []) (expr : Expr) :
    (path.foldl .property expr).endsInLiteral = false ∧
    (path.foldl .property expr).isOperation = false ∧
    ∃ indexes : List Expr, (∀ index ∈ indexes, index.isOperation = false) ∧
      (path.foldl .property expr).receivers = indexes ++ expr :: expr.receivers := by
  induction path using List.reverseRecOn with
  | nil => exact absurd rfl nonempty
  | append_singleton path last ih =>
    rw [List.foldl_append, List.foldl_cons, List.foldl_nil]
    refine ⟨rfl, rfl, ?_⟩
    cases path with
    | nil => exact ⟨[], by simp, rfl⟩
    | cons first path =>
      obtain ⟨-, other, indexes, others, hreceivers⟩ := ih (List.cons_ne_nil _ _)
      exact ⟨_ :: indexes, List.forall_mem_cons.2 ⟨other, others⟩,
        by rw [receivers, hreceivers]; rfl⟩

/-- A path has an index. -/
theorem ne_nil_of_indexPath {lexeme : String} {path : List String}
    (h : indexPath lexeme = some path) : path ≠ [] := by
  unfold indexPath at h
  cases hsegments : (lexeme.toList.drop 1).splitOn '.' with
  | nil => exact absurd hsegments (List.splitOn_ne_nil _ _)
  | cons segment segments =>
    rw [hsegments, List.mapM_cons] at h
    obtain ⟨index, -, h⟩ := Option.bind_eq_some_iff.1 h
    obtain ⟨rest, -, h⟩ := Option.bind_eq_some_iff.1 h
    cases h
    exact List.cons_ne_nil _ _

end Expr

open ExprMachine.Expr

-- ============================================================================
-- Parts in a row of symbols
-- ============================================================================

/-- Whether an operand starts behind the symbol. -/
def Symbol.precedesOperand : Symbol → Bool
  | .operator value => value != "."
  | .bracket value => value == "(" || value == "["
  | _ => false

namespace Reading

/-- Whether a parenthesis opens that is not one of arguments, which are those directly
    behind a name. -/
def groups (behindName : Bool) : List Symbol → Bool
  | [] => false
  | symbol :: rest =>
    (symbol == .bracket "(" && !behindName) || groups (symbol.kind == .identifier) rest

/-- Whether a part starts here that any tree can have: a name or indexes after a point. -/
def opensAccess (symbols : List Symbol) : Bool :=
  symbols.head? == some (.operator ".") || symbols.head?.any Symbol.isIndexes

/-- Whether a part directly follows a literal of one token, where the first symbol may be
    an operand or not. -/
def literalTakesPart (operand : Bool) : List Symbol → Bool
  | [] => false
  | symbol :: rest =>
    (operand && symbol.literal?.isSome && opensAccess rest) ||
      literalTakesPart symbol.precedesOperand rest

theorem groups_of_suffix {behindName : Bool} {symbols rest : List Symbol}
    (suffix : rest <:+ symbols) (h : groups behindName symbols = false) :
    groups true rest = false := by
  obtain ⟨front, rfl⟩ := suffix
  induction front generalizing behindName with
  | nil =>
    rw [List.nil_append] at h
    cases rest with
    | nil => rfl
    | cons symbol rest =>
      rw [groups, Bool.or_eq_false_iff] at h
      simpa [groups] using h.2
  | cons symbol front ih =>
    rw [List.cons_append, groups, Bool.or_eq_false_iff] at h
    exact ih h.2

/-- What is not grouped is not grouped behind any of its symbols that is no name. -/
theorem groups_behind {behindName : Bool} {symbol : Symbol} {symbols rest : List Symbol}
    (suffix : symbol :: rest <:+ symbols) (h : groups behindName symbols = false)
    (other : symbol.kind ≠ .identifier) : groups false rest = false := by
  have behind := groups_of_suffix suffix h
  rw [groups, Bool.or_eq_false_iff, beq_eq_false_iff_ne.2 other] at behind
  exact behind.2

theorem opensAccess_eq_false {left : Expr} {symbols : List Symbol}
    (done : opensPart left symbols = false) : opensAccess symbols = false :=
  (Bool.or_eq_false_iff.1 done).1

@[simp] theorem opensAccess_operator (symbol : String) (rest : List Symbol) :
    opensAccess (.operator symbol :: rest) = (symbol == ".") := by
  simp [opensAccess, Symbol.isIndexes, Bool.beq_eq_decide_eq]

@[simp] theorem opensAccess_bracket (bracket : String) (rest : List Symbol) :
    opensAccess (.bracket bracket :: rest) = false := by
  simp [opensAccess, Symbol.isIndexes]

@[simp] theorem literalTakesPart_operator (operand : Bool) (symbol : String)
    (rest : List Symbol) :
    literalTakesPart operand (.operator symbol :: rest) =
      literalTakesPart (symbol != ".") rest := by
  simp [literalTakesPart, Symbol.literal?, Symbol.precedesOperand]

@[simp] theorem literalTakesPart_bracket (operand : Bool) (bracket : String)
    (rest : List Symbol) :
    literalTakesPart operand (.bracket bracket :: rest) =
      literalTakesPart (bracket == "(" || bracket == "[") rest := by
  simp [literalTakesPart, Symbol.literal?, Symbol.precedesOperand]

@[simp] theorem literalTakesPart_word (name : String) (rest : List Symbol) :
    literalTakesPart false (.word name :: rest) = literalTakesPart false rest := by
  simp [literalTakesPart, Symbol.precedesOperand]

@[simp] theorem literalTakesPart_number (value : String) (rest : List Symbol) :
    literalTakesPart false (.number value :: rest) = literalTakesPart false rest := by
  simp [literalTakesPart, Symbol.precedesOperand]

end Reading

open ExprMachine.Reading

/-- A literal of one token has no parts. -/
theorem receivers_of_literal? {symbol : Symbol} {expr : Expr} (h : symbol.literal? = some expr) :
    expr.receivers = [] ∧ expr.endsInLiteral = true := by
  have literal := isLiteral_of_literal? h
  cases expr with
  | bool | nil | float | int | text => exact ⟨rfl, rfl⟩
  | _ => cases literal

/-- No operand starts behind a literal. -/
theorem precedesOperand_of_literal? {symbol : Symbol} {expr : Expr}
    (h : symbol.literal? = some expr) : symbol.precedesOperand = false := by
  obtain ⟨kind, value⟩ := symbol
  cases kind with
  | operator | bracket => cases h
  | _ => rfl

-- ============================================================================
-- What is read
-- ============================================================================

namespace Phrase

/-- The receivers in a phrase. -/
def receivers : Phrase → List Expr
  | .expression _ expr | .chain _ expr | .operand expr | .stem expr => expr.receivers
  | .sequence _ exprs | .items _ exprs => receiversAll exprs

/-- Whether the phrase is a tree that ends in a literal of one token. -/
def endsInLiteral : Phrase → Bool
  | .expression _ expr | .chain _ expr | .operand expr | .stem expr => expr.endsInLiteral
  | .sequence .. | .items .. => false

/-- Whether parts that follow may belong to what the phrase is the beginning of. -/
def leavesParts : Phrase → Bool
  | .expression .. | .chain .. | .operand _ => false
  | .stem _ | .sequence .. | .items .. => true

end Phrase

/-- Whether a receiver is what it may be in a source without parentheses for grouping: no
    operation, or a prefix operator that applies to an operand that ends in a literal. -/
def Expr.ReceivesParts (receiver : Expr) : Prop :=
  receiver.isOperation = true →
    ∃ symbol operand, receiver = .unary symbol operand ∧ operand.endsInLiteral = true

namespace Reads

variable {grammar : Grammar} {phrase : Phrase} {symbols rest : List Symbol}

/-- An operand with all its parts is followed by a part only if it is a literal, and so is
    an expression only if it ends in one. -/
theorem endsInLiteral (h : Reads grammar phrase symbols rest) (access : opensAccess rest = true)
    (complete : phrase.leavesParts = false) : phrase.endsInLiteral = true := by
  induction h with
  | expression _ _ ih => exact ih access rfl
  | single _ ih => exact ih access rfl
  | binary _ _ _ _ _ ihRight => exact ihRight access rfl
  | literal denotes => exact (receivers_of_literal? denotes).2
  | operand _ done =>
    rw [opensAccess_eq_false done] at access
    cases access
  | _ => cases complete

/-- What takes a part, in a source without parentheses for grouping, is an operation only
    if it is a prefix operator whose operand ends in a literal. -/
theorem receiver_cases {expr : Expr} (h : Reads grammar (.stem expr) symbols rest)
    (ungrouped : groups false symbols = false) (access : opensAccess rest = true) :
    expr.ReceivesParts ∧ expr.endsInLiteral = expr.isOperation := by
  cases h with
  | unary _ expression =>
    have ends := expression.endsInLiteral access rfl
    exact ⟨fun _ => ⟨_, _, rfl, ends⟩, ends⟩
  | parentheses => simp [groups] at ungrouped
  | indexes _ _ denotes =>
    obtain ⟨noLiteral, other, -⟩ := receivers_indexes (ne_nil_of_indexPath denotes) _
    refine ⟨fun operation => ?_, noLiteral.trans other.symm⟩
    cases other.symm.trans operation
  | list | name | call | property | method =>
    refine ⟨fun operation => ?_, rfl⟩
    cases operation

end Reads

/-- How parts are attached in a phrase that is read. Every receiver is what it may be. Where a
    part directly follows a literal, it does so in the phrase, and an operation takes it; or
    right behind the phrase, which then ends in the literal; or further on. -/
structure Attaches (phrase : Phrase) (symbols rest : List Symbol) : Prop where
  receives : ∀ receiver ∈ phrase.receivers, receiver.ReceivesParts
  follows : literalTakesPart true symbols =
    (phrase.receivers.any Expr.isOperation || (phrase.endsInLiteral && opensAccess rest) ||
      literalTakesPart false rest)

/-- Where a part is taken of a tree, the tree is a receiver like those in it. -/
theorem Attaches.receiver {expr : Expr} {symbols rest : List Symbol}
    (h : Attaches (.stem expr) symbols rest) (access : opensAccess rest = true)
    (ends : expr.endsInLiteral = expr.isOperation) :
    literalTakesPart true symbols =
      ((expr :: expr.receivers).any Expr.isOperation || literalTakesPart false rest) := by
  rw [h.follows, access, Bool.and_true, Phrase.endsInLiteral, ends, List.any_cons,
    Bool.or_comm expr.isOperation]
  rfl

/-- The indexes of a path are attached one behind the other, the first to the tree. -/
theorem Attaches.indexes {expr : Expr} {value : String} {path : List String}
    {symbols rest : List Symbol} (h : Attaches (.stem expr) symbols (.number value :: rest))
    (point : (Symbol.number value).isIndexes = true) (nonempty : path ≠ [])
    (receives : expr.ReceivesParts) (ends : expr.endsInLiteral = expr.isOperation) :
    Attaches (.stem (path.foldl .property expr)) symbols rest := by
  obtain ⟨noLiteral, -, indexes, others, hreceivers⟩ := receivers_indexes nonempty expr
  constructor
  · intro receiver hreceiver
    rw [Phrase.receivers, hreceivers, List.mem_append, List.mem_cons] at hreceiver
    rcases hreceiver with hreceiver | rfl | hreceiver
    · intro operation
      cases (others receiver hreceiver).symm.trans operation
    · exact receives
    · exact h.receives receiver hreceiver
  · have noIndex : indexes.any Expr.isOperation = false := by
      simpa using others
    rw [h.receiver (by simp [opensAccess, point]) ends]
    simp [Phrase.receivers, Phrase.endsInLiteral, hreceivers, noLiteral, noIndex]

namespace Grammar

/-- Whether the point is no operator of the grammar. -/
def WithoutPoint (grammar : Grammar) : Prop :=
  grammar.unary? "." = none ∧ grammar.binary? "." = none

variable {grammar : Grammar} {symbol : String} {info : OperatorInfo}

theorem WithoutPoint.unary (h : grammar.WithoutPoint) (known : grammar.unary? symbol = some info) :
    (symbol == ".") = false := by
  refine beq_eq_false_iff_ne.2 ?_
  rintro rfl
  cases h.1.symm.trans known

theorem WithoutPoint.binary (h : grammar.WithoutPoint)
    (known : grammar.binary? symbol = some info) : (symbol == ".") = false := by
  refine beq_eq_false_iff_ne.2 ?_
  rintro rfl
  cases h.2.symm.trans known

theorem standard_withoutPoint : standard.WithoutPoint :=
  ⟨rfl, rfl⟩

end Grammar

/-- Parts are attached like this in everything that is read. -/
theorem Reads.attaches {grammar : Grammar} (withoutPoint : grammar.WithoutPoint) {phrase : Phrase}
    {symbols rest : List Symbol} (h : Reads grammar phrase symbols rest)
    (ungrouped : groups false symbols = false) : Attaches phrase symbols rest := by
  induction h with
  | expression _ _ ih => exact ⟨(ih ungrouped).receives, (ih ungrouped).follows⟩
  | single _ ih => exact ⟨(ih ungrouped).receives, (ih ungrouped).follows⟩
  | @binary least symbol info left right symbols between rest chain known _ _ ihLeft ihRight =>
    have noPoint : (symbol == ".") = false := withoutPoint.binary known
    have onLeft := ihLeft ungrouped
    have onRight := ihRight (groups_behind chain.suffix ungrouped (by simp))
    refine ⟨List.forall_mem_append.2 ⟨onLeft.receives, onRight.receives⟩, ?_⟩
    rw [onLeft.follows, literalTakesPart_operator, bne, noPoint, Bool.not_false, onRight.follows]
    simp [Phrase.receivers, Phrase.endsInLiteral, Expr.receivers, Expr.endsInLiteral, noPoint,
      Bool.or_assoc]
  | @literal symbol expr rest denotes =>
    obtain ⟨noReceivers, ends⟩ := receivers_of_literal? denotes
    refine ⟨by simp [Phrase.receivers, noReceivers], ?_⟩
    rw [literalTakesPart, denotes, precedesOperand_of_literal? denotes]
    simp [Phrase.receivers, noReceivers, Phrase.endsInLiteral, ends]
  | operand _ _ ih => exact ⟨(ih ungrouped).receives, (ih ungrouped).follows⟩
  | @unary symbol info expr symbols rest known _ ih =>
    have noPoint : (symbol == ".") = false := withoutPoint.unary known
    have inner := ih (groups_behind List.suffix_rfl ungrouped (by simp))
    refine ⟨inner.receives, ?_⟩
    rw [literalTakesPart_operator, bne, noPoint, Bool.not_false, inner.follows]
    rfl
  | parentheses => simp [groups] at ungrouped
  | list _ ih =>
    have items := ih (groups_behind List.suffix_rfl ungrouped (by simp))
    refine ⟨items.receives, ?_⟩
    rw [literalTakesPart_bracket]
    exact items.follows
  | name plain =>
    refine ⟨by simp [Phrase.receivers, Expr.receivers], ?_⟩
    rw [literalTakesPart, plain]
    rfl
  | call stem _ ihStem ihSequence =>
    have behind := ihSequence (groups_behind stem.suffix ungrouped (by simp))
    refine ⟨behind.receives, ?_⟩
    rw [(ihStem ungrouped).follows, literalTakesPart_bracket]
    exact behind.follows
  | property stem _ ih =>
    have receiver := ih ungrouped
    obtain ⟨receives, ends⟩ := stem.receiver_cases ungrouped (by simp)
    refine ⟨List.forall_mem_cons.2 ⟨receives, receiver.receives⟩, ?_⟩
    rw [receiver.receiver (by simp) ends]
    simp [Phrase.receivers, Phrase.endsInLiteral, Expr.receivers, Expr.endsInLiteral,
      Expr.isLiteral]
  | @method expr name arguments symbols between rest stem _ ihStem ihSequence =>
    have receiver := ihStem ungrouped
    have opened : Symbol.bracket "(" :: between <:+ symbols :=
      (List.suffix_cons _ _).trans ((List.suffix_cons _ _).trans stem.suffix)
    have behind := ihSequence (groups_behind opened ungrouped (by simp))
    obtain ⟨receives, ends⟩ := stem.receiver_cases ungrouped (by simp)
    refine ⟨List.forall_mem_cons.2
      ⟨receives, List.forall_mem_append.2 ⟨receiver.receives, behind.receives⟩⟩, ?_⟩
    rw [receiver.receiver (by simp) ends]
    simp [Phrase.receivers, Phrase.endsInLiteral, Expr.receivers, Expr.endsInLiteral,
      Expr.isLiteral, behind.follows, Bool.or_assoc]
  | indexes stem point denotes ih =>
    obtain ⟨receives, ends⟩ := stem.receiver_cases ungrouped (by simp [opensAccess, point])
    exact (ih ungrouped).indexes point (ne_nil_of_indexPath denotes) receives ends
  | @empty kind rest =>
    refine ⟨by simp [Phrase.receivers, receiversAll], ?_⟩
    cases kind <;> simp [Phrase.receivers, receiversAll, Phrase.endsInLiteral, SequenceKind.close]
  | sequence _ ih => exact ⟨(ih ungrouped).receives, (ih ungrouped).follows⟩
  | @last kind expr symbols rest _ _ ih =>
    have only := ih ungrouped
    have receivers : (Phrase.items kind [expr]).receivers = expr.receivers :=
      List.append_nil _
    refine ⟨receivers ▸ only.receives, ?_⟩
    rw [only.follows, receivers]
    cases kind <;> simp [Phrase.receivers, Phrase.endsInLiteral, SequenceKind.close]
  | item _ expression _ ihItem ihItems =>
    have first := ihItem ungrouped
    have others := ihItems (groups_behind expression.suffix ungrouped (by simp))
    refine ⟨List.forall_mem_append.2 ⟨first.receives, others.receives⟩, ?_⟩
    rw [first.follows, literalTakesPart_operator]
    simp [Phrase.receivers, Phrase.endsInLiteral, receiversAll, others.follows, Bool.or_assoc]

-- ============================================================================
-- Sources
-- ============================================================================

namespace Source

/-- In the tree of a source without parentheses for grouping, no part is taken of an infix
    operator, and of a prefix operator only if its operand ends in a literal of one token.
    A prefix operator applies to its operand with all parts everywhere in the tree, just when
    no such literal is directly followed by a part. -/
theorem expr_receivers {source : String} {tokens : List Token} {tree : Expr}
    (scanned : Source.tokens source = .ok tokens)
    (ungrouped : groups false (Token.spelt tokens) = false)
    (parsed : expr source = .ok tree) :
    (∀ receiver ∈ tree.receivers, receiver.isOperation = true →
      ∃ symbol operand, receiver = .unary symbol operand ∧ operand.endsInLiteral = true) ∧
    ((∀ receiver ∈ tree.receivers, receiver.isOperation = false) ↔
      literalTakesPart true (Token.spelt tokens) = false) := by
  obtain ⟨found, hscan, hparse⟩ := expr_eq_ok_iff.1 parsed
  cases (tokens_eq_ok_iff.1 scanned).symm.trans hscan
  obtain ⟨receives, follows⟩ :=
    (Expr.reads_of_parse hparse).attaches Grammar.standard_withoutPoint ungrouped
  refine ⟨receives, ?_⟩
  rw [follows]
  simp [Phrase.receivers, opensAccess, literalTakesPart]

/-- In `-f(a).b in c` the part is taken of the call. -/
theorem expr_receivers_call :
    ∃ tree, expr "-f(a).b in c" = .ok tree ∧ .call "f" [.identifier "a"] ∈ tree.receivers ∧
      ∀ receiver ∈ tree.receivers, receiver.isOperation = false := by
  have parsed : expr "-f(a).b in c" = .ok (.binary "in"
      (.unary "-" (.property (.call "f" [.identifier "a"]) "b")) (.identifier "c")) := by
    with_unfolding_all rfl
  have scanned : ∃ tokens, Source.tokens "-f(a).b in c" = .ok tokens ∧
      groups false (Token.spelt tokens) = false ∧
      literalTakesPart true (Token.spelt tokens) = false :=
    ⟨_, by with_unfolding_all rfl, by decide, by decide⟩
  obtain ⟨tokens, scanned, ungrouped, apart⟩ := scanned
  exact ⟨_, parsed, by simp [receivers, receiversAll],
    (expr_receivers scanned ungrouped parsed).2.2 apart⟩

/-- In `-1.x` the part is not taken of the literal but of the prefix operator. -/
theorem expr_receivers_literal :
    ∃ source tokens tree, Source.tokens source = .ok tokens ∧
      groups false (Token.spelt tokens) = false ∧ expr source = .ok tree ∧
      ∃ receiver ∈ tree.receivers, receiver.isOperation = true :=
  ⟨"-1.x", _, .property (.unary "-" (.int 1)) "x", by with_unfolding_all rfl, by decide,
    by with_unfolding_all rfl, .unary "-" (.int 1), by simp [receivers], rfl⟩

end Source

end ExprMachine
