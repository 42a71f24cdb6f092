/-
  ExprMachine.Proofs.Expr.Beginnings

  How far the reading of a phrase can have come: the symbols before some place begin a
  phrase. Every beginning can be completed, by a name where an operand is missing and by
  the brackets that are still to be closed.
-/
import ExprMachine.Proofs.Expr.Reread
import ExprMachine.Proofs.Expr.Weight

namespace ExprMachine

open ExprMachine.Expr Reading

-- ============================================================================
-- Beginnings
-- ============================================================================

/-- What is being read, without a tree for it. -/
inductive Goal where
  | expression (least : Nat)
  | operand
  | sequence (kind : SequenceKind)
  | items (kind : SequenceKind)

/-- Some phrase for the goal stands at the front of the symbols, and these are left. -/
def Goal.Reads (grammar : Grammar) (symbols rest : List Symbol) : Goal → Prop
  | .expression least => ∃ expr, ExprMachine.Reads grammar (.expression least expr) symbols rest
  | .operand => ∃ expr, ExprMachine.Reads grammar (.operand expr) symbols rest
  | .sequence kind => ∃ exprs, ExprMachine.Reads grammar (.sequence kind exprs) symbols rest
  | .items kind => ∃ exprs, ExprMachine.Reads grammar (.items kind exprs) symbols rest

/-- `Begins grammar goal symbols rest`: the symbols before the rest begin a phrase for the
    goal. One rule for each place at which the reading of a phrase may stop. -/
inductive Begins (grammar : Grammar) : Goal → List Symbol → List Symbol → Prop where
  | here {goal symbols} : Begins grammar goal symbols symbols
  | whole {least expr symbols rest}
      (expression : Reads grammar (.expression least expr) symbols rest) :
      Begins grammar (.expression least) symbols rest
  | first {least symbols rest} (operand : Begins grammar .operand symbols rest) :
      Begins grammar (.expression least) symbols rest
  | binary {least symbol info left symbols between rest}
      (chain : Reads grammar (.chain least left) symbols (.operator symbol :: between))
      (known : grammar.binary? symbol = some info) (binds : least ≤ info.priority)
      (right : Begins grammar (.expression info.rightBound) between rest) :
      Begins grammar (.expression least) symbols rest
  | unary {symbol info symbols rest} (known : grammar.unary? symbol = some info)
      (inner : Begins grammar (.expression info.priority) symbols rest) :
      Begins grammar .operand (.operator symbol :: symbols) rest
  | parentheses {symbols rest} (inner : Begins grammar (.expression 0) symbols rest) :
      Begins grammar .operand (.bracket "(" :: symbols) rest
  | list {symbols rest} (items : Begins grammar (.sequence .items) symbols rest) :
      Begins grammar .operand (.bracket "[" :: symbols) rest
  | stem {expr symbols rest} (stem : Reads grammar (.stem expr) symbols rest) :
      Begins grammar .operand symbols rest
  | point {expr symbols rest}
      (stem : Reads grammar (.stem expr) symbols (.operator "." :: rest)) :
      Begins grammar .operand symbols rest
  | call {name symbols between rest}
      (stem : Reads grammar (.stem (.identifier name)) symbols (.bracket "(" :: between))
      (arguments : Begins grammar (.sequence .arguments) between rest) :
      Begins grammar .operand symbols rest
  | method {expr name symbols between rest}
      (stem : Reads grammar (.stem expr) symbols
        (.operator "." :: .word name :: .bracket "(" :: between))
      (arguments : Begins grammar (.sequence .arguments) between rest) :
      Begins grammar .operand symbols rest
  | items {kind symbols rest} (items : Begins grammar (.items kind) symbols rest) :
      Begins grammar (.sequence kind) symbols rest
  | item {kind symbols rest} (item : Begins grammar (.expression 0) symbols rest) :
      Begins grammar (.items kind) symbols rest
  | next {kind expr symbols between rest}
      (item : Reads grammar (.expression 0 expr) symbols (.operator "," :: between))
      (others : Begins grammar (.items kind) between rest) :
      Begins grammar (.items kind) symbols rest

-- ============================================================================
-- Completions
-- ============================================================================

/-- A completion of what stands in front: the goal is reached with a few more symbols,
    whatever may follow an expression comes after them. -/
structure Completes (grammar : Grammar) (goal : Goal) (front more : List Symbol) : Prop where
  light : weight more ≤ 1
  noEnd : ∀ symbol ∈ more, symbol.kind ≠ .endOfInput
  reads : ∀ tail, Ends grammar tail → goal.Reads grammar (front ++ (more ++ tail)) tail

section Completion

variable {grammar : Grammar}

/-- A name stands for any expression that is missing. -/
theorem reads_name {least : Nat} {tail : List Symbol} (ends : Ends grammar tail) :
    Reads grammar (.expression least (.identifier "x")) (.word "x" :: tail) tail :=
  .expression (.single (.operand (.name (by decide)) (opensPart_eq_false ends.noPart)))
    ends.opensInfix_eq_false

/-- A stem before symbols that add nothing to it is an operand. -/
theorem Ends.operand {expr : Expr} {symbols tail : List Symbol} (ends : Ends grammar tail)
    (stem : Reads grammar (.stem expr) symbols tail) : Goal.operand.Reads grammar symbols tail :=
  ⟨expr, .operand stem (opensPart_eq_false ends.noPart)⟩

theorem completes_here (goal : Goal) : ∃ more, Completes grammar goal [] more := by
  cases goal with
  | expression least =>
    exact ⟨[.word "x"], Nat.le_refl 1, by simp, fun tail ends => ⟨_, reads_name ends⟩⟩
  | operand =>
    exact ⟨[.word "x"], Nat.le_refl 1, by simp, fun tail ends => ends.operand (.name (by decide))⟩
  | sequence kind =>
    exact ⟨[.bracket kind.close], by simp, by simp, fun tail _ => ⟨[], .empty⟩⟩
  | items kind =>
    refine ⟨[.word "x", .bracket kind.close], by simp, by simp, fun tail ends => ?_⟩
    refine ⟨[.identifier "x"], ?_⟩
    exact .last (by simp) (reads_name .close)

theorem Reads.head_ne_comma (separates : grammar.separates = true) {expr : Expr}
    {symbols rest : List Symbol} (h : Reads grammar (.expression 0 expr) symbols rest) :
    symbols.head? ≠ some (.operator ",") := by
  obtain ⟨_, nests⟩ := h.exists_nests
  exact Reread.head_ne_comma separates nests

namespace Completes

variable {goal goal' : Goal} {front front' more : List Symbol}

/-- What completes a part of a phrase completes the phrase. -/
theorem within (h : Completes grammar goal front more)
    (reads : ∀ tail, Ends grammar tail → goal.Reads grammar (front ++ (more ++ tail)) tail →
      goal'.Reads grammar (front' ++ (more ++ tail)) tail) :
    Completes grammar goal' front' more where
  light := h.light
  noEnd := h.noEnd
  reads tail ends := reads tail ends (h.reads tail ends)

/-- What completes a part of a phrase completes the phrase with the bracket that closes it. -/
theorem closed (kind : SequenceKind) (h : Completes grammar goal front more)
    (reads : ∀ tail, Ends grammar tail →
      goal.Reads grammar (front ++ (more ++ .bracket kind.close :: tail))
        (.bracket kind.close :: tail) →
      goal'.Reads grammar (front' ++ (more ++ .bracket kind.close :: tail)) tail) :
    Completes grammar goal' front' (more ++ [.bracket kind.close]) where
  light := by
    rw [weight_append, weight_cons, Symbol.weight_close]
    exact h.light
  noEnd := List.forall_mem_append.2 ⟨h.noEnd, by simp⟩
  reads tail ends := by
    rw [List.append_assoc more]
    exact reads tail ends (h.reads _ .close)

/-- What can be read needs nothing to complete it. -/
theorem of_reads {symbols : List Symbol}
    (reads : ∀ tail, Ends grammar tail → goal.Reads grammar (symbols ++ tail) tail) :
    Completes grammar goal symbols [] :=
  ⟨Nat.zero_le 1, List.forall_mem_nil _, reads⟩

end Completes

/-- Every beginning of a phrase can be completed, whatever stood after it. -/
theorem Begins.exists_completion (separates : grammar.separates = true) {goal : Goal}
    {symbols rest : List Symbol} (h : Begins grammar goal symbols rest) :
    ∃ front more, symbols = front ++ rest ∧ Completes grammar goal front more := by
  induction h with
  | @here goal _ =>
    obtain ⟨more, completes⟩ := completes_here goal
    exact ⟨[], more, rfl, completes⟩
  | whole expression =>
    obtain ⟨front, rfl, reads⟩ := expression.exists_front
    exact ⟨front, [], rfl, .of_reads fun tail ends => ⟨_, reads tail (.inr ends)⟩⟩
  | first _ ih =>
    obtain ⟨front, more, rfl, completes⟩ := ih
    refine ⟨front, more, rfl, completes.within ?_⟩
    rintro tail ends ⟨expr, reads⟩
    exact ⟨expr, .expression (.single reads) ends.opensInfix_eq_false⟩
  | @binary _ symbol _ left _ _ _ chain known binds _ ih =>
    obtain ⟨first, rfl, readsLeft⟩ := chain.exists_front
    obtain ⟨front, more, rfl, completes⟩ := ih
    refine ⟨first ++ .operator symbol :: front, more, by simp, completes.within ?_⟩
    rintro tail ends ⟨right, reads⟩
    refine ⟨.binary symbol left right, .expression ?_ ends.opensInfix_eq_false⟩
    rw [List.append_assoc]
    exact .binary (readsLeft _ (.inl rfl)) known binds reads
  | unary known _ ih =>
    obtain ⟨front, more, rfl, completes⟩ := ih
    refine ⟨_ :: front, more, rfl, completes.within ?_⟩
    rintro tail ends ⟨expr, reads⟩
    exact ends.operand (.unary known reads)
  | parentheses _ ih =>
    obtain ⟨front, more, rfl, completes⟩ := ih
    refine ⟨_ :: front, _, rfl, completes.closed .arguments ?_⟩
    rintro tail ends ⟨expr, reads⟩
    exact ends.operand (.parentheses reads)
  | list _ ih =>
    obtain ⟨front, more, rfl, completes⟩ := ih
    refine ⟨_ :: front, more, rfl, completes.within ?_⟩
    rintro tail ends ⟨items, reads⟩
    exact ends.operand (.list reads)
  | stem stem =>
    obtain ⟨front, rfl, reads⟩ := stem.exists_front
    exact ⟨front, [], rfl, .of_reads fun tail ends => ends.operand (reads tail (.inr ends))⟩
  | point stem =>
    obtain ⟨front, rfl, reads⟩ := stem.exists_front
    refine ⟨front ++ [.operator "."], [.word "x"], by simp, Nat.le_refl 1, by simp,
      fun tail ends => ?_⟩
    rw [List.append_assoc]
    have stem := reads (.operator "." :: .word "x" :: tail) (.inl rfl)
    exact ends.operand (.property stem (opensArguments_eq_false ends.noPart))
  | call stem _ ih =>
    obtain ⟨name, rfl, readsName⟩ := stem.exists_front
    obtain ⟨front, more, rfl, completes⟩ := ih
    refine ⟨name ++ .bracket "(" :: front, more, by simp, completes.within ?_⟩
    rintro tail ends ⟨arguments, reads⟩
    rw [List.append_assoc]
    exact ends.operand (.call (readsName _ (.inl rfl)) reads)
  | @method _ name _ _ _ stem _ ih =>
    obtain ⟨owner, rfl, readsOwner⟩ := stem.exists_front
    obtain ⟨front, more, rfl, completes⟩ := ih
    refine ⟨owner ++ .operator "." :: .word name :: .bracket "(" :: front, more, by simp,
      completes.within ?_⟩
    rintro tail ends ⟨arguments, reads⟩
    rw [List.append_assoc]
    exact ends.operand (.method (readsOwner _ (.inl rfl)) reads)
  | items _ ih =>
    obtain ⟨front, more, rfl, completes⟩ := ih
    refine ⟨front, more, rfl, completes.within ?_⟩
    rintro tail ends ⟨exprs, reads⟩
    exact ⟨exprs, .sequence reads⟩
  | @item kind _ _ _ ih =>
    obtain ⟨front, more, rfl, completes⟩ := ih
    refine ⟨front, _, rfl, completes.closed kind ?_⟩
    rintro tail ends ⟨expr, reads⟩
    exact ⟨[expr], .last (reads.head_ne_comma separates) reads⟩
  | @next _ expr _ _ _ item _ ih =>
    obtain ⟨start, rfl, readsItem⟩ := item.exists_front
    obtain ⟨front, more, rfl, completes⟩ := ih
    refine ⟨start ++ .operator "," :: front, more, by simp, completes.within ?_⟩
    rintro tail ends ⟨exprs, reads⟩
    refine ⟨expr :: exprs, ?_⟩
    rw [List.append_assoc]
    have first := readsItem (.operator "," :: (front ++ (more ++ tail))) (.inl rfl)
    exact .item (first.head_ne_comma separates) first reads

end Completion

end ExprMachine
