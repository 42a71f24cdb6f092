/-
  ExprMachine.Proofs.Expr.Remaining

  What the readers of the parser leave is an end of what they were given.
-/
import ExprMachine.Proofs.Expr.ParserSound

namespace ExprMachine.Parser

/-- The tokens that the reader leaves are an end of those that it was given. -/
def Reader.Suffixed (operand : Reader) : Prop :=
  ∀ least tokens parsed, operand least tokens = .ok parsed → parsed.rest <:+ tokens

/-- The same for a piece of a tree. -/
def Growth.Suffixed (growth : Growth) : Prop :=
  ∀ left depth tokens larger, growth left depth tokens = .ok (some larger) → larger.rest <:+ tokens

section Suffixes

variable {setting : Setting} {operand : Reader} {growth : Growth} {tokens all : List Token}

theorem growFrom_suffix (suffixed : growth.Suffixed) {left final : Parsed all}
    (h : growFrom growth left = .ok final) : final.rest <:+ left.rest :=
  (growFrom_sound (motive := fun _ rest => rest <:+ left.rest)
    (fun _ _ _ _ taken suffix => (suffixed _ _ _ _ taken).trans suffix) h
    (List.suffix_refl _)).1

variable (suffixed : operand.Suffixed)
include suffixed

theorem sequenceFrom_suffix {kind : SequenceKind} {opened : Position} {found : Array Expr}
    {depth : Nat} {inside : tokens.length ≤ all.length} {parsed : ParsedSequence all}
    (h : sequenceFrom setting operand kind opened found depth tokens inside = .ok parsed) :
    parsed.rest <:+ tokens := by
  have behind {tokens : List Token} {item : Parsed tokens} {token : Token} {after : List Token}
      (hitem : operand 0 tokens = .ok item) (hrest : item.rest = token :: after) :
      after <:+ tokens :=
    (List.suffix_cons token after).trans (hrest ▸ suffixed _ _ _ hitem)
  fun_induction sequenceFrom setting operand kind opened found depth tokens inside with
  | case4 found depth tokens inside _ item hitem token after hrest =>
    cases h
    exact behind hitem hrest
  | case6 found depth tokens inside _ item hitem token after hrest _ _ _ _ ih =>
    exact (ih h).trans (behind hitem hrest)
  | _ => cases h

theorem sequence_suffix {kind : SequenceKind} {opened : Position} {parsed : ParsedSequence tokens}
    (h : sequence setting operand kind opened tokens = .ok parsed) : parsed.rest <:+ tokens := by
  rcases sequence_cases h with ⟨token, htokens, -⟩ | items
  · exact ⟨[token], htokens.symm⟩
  · exact sequenceFrom_suffix suffixed items

theorem arguments_suffix {parsed : ParsedSequence tokens}
    (h : arguments? setting operand tokens = .ok (some parsed)) : parsed.rest <:+ tokens := by
  cases arguments_accepted h with
  | sequence _ read => exact (sequence_suffix suffixed read).trans (List.suffix_cons _ _)

theorem Part.suffix {left expr : Expr} {depth depth' : Nat} {rest : List Token}
    (h : Part setting operand left depth tokens expr depth' rest) : rest <:+ tokens := by
  cases h with
  | method _ _ found =>
    exact (arguments_suffix suffixed found).trans
      ((List.suffix_cons _ _).trans (List.suffix_cons _ _))
  | property => exact (List.suffix_cons _ _).trans (List.suffix_cons _ _)
  | indexes => exact List.suffix_cons _ _
  | call found => exact arguments_suffix suffixed found

theorem part_suffix : (part? setting operand).Suffixed :=
  fun _ _ _ _ h => (part_accepted h).1.suffix suffixed

theorem InfixOperand.suffix {least : Nat} {left expr : Expr} {depth depth' : Nat}
    {rest : List Token}
    (h : InfixOperand setting operand least left depth tokens expr depth' rest) :
    rest <:+ tokens := by
  cases h with
  | binary _ _ _ read => exact (suffixed _ _ _ read).trans (List.suffix_cons _ _)

theorem infixOperand_suffix (least : Nat) : (infixOperand? setting operand least).Suffixed :=
  fun _ _ _ _ h => (infixOperand_accepted h).1.suffix suffixed

theorem Stem.suffix {expr : Expr} {depth : Nat} {rest : List Token}
    (h : Stem setting operand tokens expr depth rest) : rest <:+ tokens := by
  cases h with
  | unary _ _ read => exact (suffixed _ _ _ read).trans (List.suffix_cons _ _)
  | parentheses _ read behind =>
    exact (List.suffix_cons _ _).trans
      ((behind ▸ suffixed _ _ _ read).trans (List.suffix_cons _ _))
  | list _ read => exact (sequence_suffix suffixed read).trans (List.suffix_cons _ _)
  | call _ _ found => exact (arguments_suffix suffixed found).trans (List.suffix_cons _ _)
  | name => exact List.suffix_cons _ _

theorem primary_suffix {parsed : Parsed tokens} (h : primary setting operand tokens = .ok parsed) :
    parsed.rest <:+ tokens := by
  cases primary_accepted h with
  | literal _ _ rest_eq =>
    rw [rest_eq]
    exact List.suffix_cons _ _
  | parts read grown =>
    exact (growFrom_suffix (part_suffix suffixed) grown).trans (read.suffix suffixed)

end Suffixes

theorem expression_suffix (setting : Setting) (levels : Nat) :
    (expression setting levels).Suffixed := by
  induction levels with
  | zero =>
    intro least tokens parsed h
    cases h
  | succ levels ih =>
    intro least tokens parsed h
    obtain ⟨left, read, grown⟩ := expression_accepted h
    exact (growFrom_suffix (infixOperand_suffix ih least) grown).trans (primary_suffix ih read)

end ExprMachine.Parser
