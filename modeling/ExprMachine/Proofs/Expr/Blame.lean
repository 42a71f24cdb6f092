/-
  ExprMachine.Proofs.Expr.Blame

  The parser passes the places of tokens on to its errors and looks at them nowhere else.
  Two lists of tokens that differ in their places only are read alike: as the same tree, or
  both fail for the same cause, each at the place of the token that is to blame.
-/
import Mathlib.Data.List.Forall2
import ExprMachine.Proofs.Expr.ParserSound
import ExprMachine.Proofs.Token.Scanning

namespace ExprMachine

-- ============================================================================
-- Errors and the tokens to blame
-- ============================================================================

/-- Whether a cause names nothing but what the token says, and of brackets that should
    stand in its place only the closing parenthesis. -/
def ParseCause.About (token : Token) : ParseCause → Prop
  | .unexpectedToken found | .expectedName found | .expectedComma _ found =>
    found = token.description
  | .expectedClose close found => close = ")" ∧ found = token.description
  | .expectedIndex found | .invalidFloat found | .integerOutOfRange found =>
    token.kind = .number ∧ found = token.value
  | .unexpectedEnd | .strayComma _ | .trailingComma _ | .unclosedParenthesis
  | .unclosedSequence _ | .nestedTooDeeply => True

/-- Whether a token is to blame for an error: the error is at its place and names nothing
    but what it says. -/
structure ParseError.Blames (error : ParseError) (token : Token) : Prop where
  position : error.position = token.position
  about : error.cause.About token

/-- Two errors with one cause, for which related tokens are to blame. -/
structure ParseError.Accords (related : Token → Token → Prop) (error error' : ParseError) :
    Prop where
  cause : error.cause = error'.cause
  blames : ∃ token token', related token token' ∧ error.Blames token ∧ error'.Blames token'

/-- What a number that denotes nothing is wrong with names the number. -/
theorem ParseCause.about_of_ofNumber {token : Token} {cause : ParseCause}
    (number : token.kind = .number) (h : Expr.ofNumber token.value = .error cause) :
    cause.About token := by
  unfold Expr.ofNumber at h
  simp only at h
  split at h
  · split at h
    · cases h
    · cases h
      exact ⟨number, rfl⟩
  · split at h
    · cases h
    · cases h
      exact ⟨number, rfl⟩

namespace Parser

open Token

/-- `Alike related same result other`: two readings succeed with values that are the same
    in this sense, or both fail for one cause and blame tokens that are related. -/
inductive Alike (related : Token → Token → Prop) {α β : Type} (same : α → β → Prop) :
    Except ParseError α → Except ParseError β → Prop where
  | ok {value value'} (h : same value value') : Alike related same (.ok value) (.ok value')
  | error {error error'} (h : error.Accords related error') :
      Alike related same (.error error) (.error error')

/-- The same tree of the same depth, with related tokens left. -/
structure Parsed.SameAs (related : Token → Token → Prop) {tokens others : List Token}
    (parsed : Parsed tokens) (other : Parsed others) : Prop where
  expr : parsed.expr = other.expr
  depth : parsed.depth = other.depth
  rest : List.Forall₂ related parsed.rest other.rest

/-- The same for a sequence. -/
structure ParsedSequence.SameAs (related : Token → Token → Prop) {tokens others : List Token}
    (parsed : ParsedSequence tokens) (other : ParsedSequence others) : Prop where
  exprs : parsed.exprs = other.exprs
  depth : parsed.depth = other.depth
  rest : List.Forall₂ related parsed.rest other.rest

/-- Readings of tokens of which each has a counterpart: the tokens differ in their places
    only, and so do the marks of the end. -/
structure Together (related : Token → Token → Prop) (setting other : Setting) : Prop where
  grammar : setting.grammar = other.grammar
  symbol : ∀ {token token'}, related token token' → token.symbol = token'.symbol
  ends : related (setting.current []) (other.current [])

/-- Readers that read related tokens alike. -/
def ReadsAlike (related : Token → Token → Prop) (operand operand' : Reader) : Prop :=
  ∀ {tokens others : List Token} (least : Nat), List.Forall₂ related tokens others →
    Alike related (Parsed.SameAs related) (operand least tokens) (operand' least others)

/-- Growths that take related pieces alike. -/
def GrowsAlike (related : Token → Token → Prop) (growth growth' : Growth) : Prop :=
  ∀ {tokens others : List Token} (left : Expr) (depth : Nat), List.Forall₂ related tokens others →
    Alike related (Option.Rel (Parsed.SameAs related)) (growth left depth tokens)
      (growth' left depth others)

namespace Alike

variable {related : Token → Token → Prop} {α β γ δ : Type} {same : α → β → Prop}
  {result : Except ParseError α} {other : Except ParseError β} {token token' : Token}

theorem blame {cause cause' : ParseCause} (pair : related token token')
    (hcause : cause = cause') (about : cause.About token) (about' : cause'.About token') :
    Alike related same (.error ⟨token.position, cause⟩) (.error ⟨token'.position, cause'⟩) :=
  .error ⟨hcause, token, token', pair, ⟨rfl, about⟩, ⟨rfl, about'⟩⟩

/-- Whatever looks at two readings that are alike sees two values or two errors. -/
@[elab_as_elim]
theorem elim {motive : Except ParseError α → Except ParseError β → Prop}
    (h : Alike related same result other)
    (ok : ∀ value value', same value value' → motive (.ok value) (.ok value'))
    (error : ∀ error error', error.Accords related error' → motive (.error error) (.error error')) :
    motive result other := by
  cases h with
  | ok h => exact ok _ _ h
  | error h => exact error _ _ h

theorem ite {c d : Prop} [Decidable c] [Decidable d] {result₁ : Except ParseError α}
    {other₁ : Except ParseError β} (iff : c ↔ d) (pos : c → Alike related same result other)
    (neg : ¬ c → Alike related same result₁ other₁) :
    Alike related same (if c then result else result₁) (if d then other else other₁) := by
  by_cases h : c
  · rw [if_pos h, if_pos (iff.1 h)]
    exact pos h
  · rw [if_neg h, if_neg (mt iff.2 h)]
    exact neg h

theorem map {same' : γ → δ → Prop} {f : α → γ} {g : β → δ}
    (h : Alike related same result other)
    (lifts : ∀ {value value'}, same value value' → same' (f value) (g value')) :
    Alike related same' (result.map f) (other.map g) := by
  cases h with
  | ok h => exact .ok (lifts h)
  | error h => exact .error h

end Alike

-- ============================================================================
-- Steps of the parser
-- ============================================================================

section Steps

variable {related : Token → Token → Prop} {setting other : Setting}
  (together : Together related setting other)
include together

theorem Together.current {tokens others : List Token} (h : List.Forall₂ related tokens others) :
    related (setting.current tokens) (other.current others) := by
  cases h with
  | nil => exact together.ends
  | cons pair => exact pair

theorem Together.kind {token token' : Token} (pair : related token token') :
    token.kind = token'.kind :=
  congrArg Symbol.kind (together.symbol pair)

theorem Together.value {token token' : Token} (pair : related token token') :
    token.value = token'.value :=
  congrArg Symbol.value (together.symbol pair)

theorem Together.isOperator {token token' : Token} {symbol : String}
    (pair : related token token') :
    token.isOperator symbol = true ↔ token'.isOperator symbol = true := by
  rw [isOperator_iff, isOperator_iff, together.symbol pair]

theorem Together.isBracket {token token' : Token} {bracket : String}
    (pair : related token token') :
    token.isBracket bracket = true ↔ token'.isBracket bracket = true := by
  rw [isBracket_iff, isBracket_iff, together.symbol pair]

theorem Together.description {token token' : Token} (pair : related token token') :
    token.description = token'.description := by
  unfold Token.description
  rw [together.kind pair, together.value pair]

theorem unexpected_alike {α β : Type} {same : α → β → Prop} {token token' : Token}
    (pair : related token token') :
    Alike related same (.error (unexpected token)) (.error (unexpected token')) := by
  unfold unexpected Token.isEnd
  rw [together.kind pair, together.description pair]
  split
  · exact .blame pair rfl trivial trivial
  · exact .blame pair rfl (together.description pair).symm rfl

omit together in
theorem limited_alike {tokens others : List Token} {token token' : Token}
    {parsed : Parsed tokens} {parsed' : Parsed others} (pair : related token token')
    (h : parsed.SameAs related parsed') :
    Alike related (Parsed.SameAs related) (limited tokens token.position parsed)
      (limited others token'.position parsed') := by
  unfold limited
  rw [h.depth]
  split
  · exact .blame pair rfl trivial trivial
  · exact .ok h

omit together in
theorem limited_map_alike {tokens others : List Token} {token token' : Token}
    {parsed : Parsed tokens} {parsed' : Parsed others} (pair : related token token')
    (h : parsed.SameAs related parsed') :
    Alike related (Option.Rel (Parsed.SameAs related))
      ((limited tokens token.position parsed).map some)
      ((limited others token'.position parsed').map some) :=
  (limited_alike pair h).map .some

omit together in
theorem growFrom_alike {growth growth' : Growth} (grows : GrowsAlike related growth growth')
    {all all' : List Token} {left : Parsed all} {left' : Parsed all'}
    (h : left.SameAs related left') :
    Alike related (Parsed.SameAs related) (growFrom growth left) (growFrom growth' left') := by
  fun_induction growFrom growth left generalizing all' left' with
  | case1 left error failed =>
    have step := grows left.expr left.depth h.rest
    rw [failed, h.expr, h.depth] at step
    generalize hstep : growth' left'.expr left'.depth left'.rest = step' at step
    cases step with
    | error h =>
      rw [growFrom_error hstep]
      exact .error h
  | case2 left done =>
    have step := grows left.expr left.depth h.rest
    rw [done, h.expr, h.depth] at step
    generalize hstep : growth' left'.expr left'.depth left'.rest = step' at step
    cases step with
    | ok agree =>
      cases agree
      rw [growFrom_none hstep]
      exact .ok h
  | case3 left larger grown ih =>
    have step := grows left.expr left.depth h.rest
    rw [grown, h.expr, h.depth] at step
    generalize hstep : growth' left'.expr left'.depth left'.rest = step' at step
    cases step with
    | ok agree =>
      cases agree with
      | some agree =>
        rw [growFrom_some hstep]
        exact ih ⟨agree.expr, agree.depth, agree.rest⟩

-- ============================================================================
-- Sequences
-- ============================================================================

variable {operand operand' : Reader} (operands : ReadsAlike related operand operand')
include operands

theorem sequenceFrom_alike {kind : SequenceKind} {opened opened' : Token}
    (opens : related opened opened') {all all' : List Token} {found : Array Expr} {depth : Nat}
    {tokens others : List Token} {inside : tokens.length ≤ all.length}
    {inside' : others.length ≤ all'.length} (h : List.Forall₂ related tokens others) :
    Alike related (ParsedSequence.SameAs related)
      (sequenceFrom setting operand kind opened.position found depth tokens inside)
      (sequenceFrom other operand' kind opened'.position found depth others inside') := by
  generalize hsize : tokens.length = size
  induction size using Nat.strongRecOn generalizing found depth tokens others with
  | ind size ih =>
    have first := together.current h
    rw [sequenceFrom, sequenceFrom]
    refine .ite (together.isOperator first) (fun _ => .blame first rfl trivial trivial) fun _ => ?_
    refine (operands 0 h).elim (fun item item' agree => ?_) fun _ _ h => .error h
    obtain ⟨expr, deep, rest, lt⟩ := item
    obtain ⟨expr', deep', rest', lt'⟩ := item'
    obtain ⟨rfl, rfl, rests⟩ := agree
    cases rests with
    | nil => exact .blame opens rfl trivial trivial
    | @cons token token' after after' pair rests =>
      have second := together.current rests
      refine .ite (together.isBracket pair) (fun _ => .ok ⟨rfl, rfl, rests⟩) fun _ => ?_
      refine .ite (together.isOperator pair) (fun _ => ?_) fun _ => ?_
      · refine .ite (together.isBracket second) (fun _ => .blame second rfl trivial trivial)
          fun _ => ?_
        have shorter : after.length < size := by
          rw [List.length_cons] at lt
          omega
        exact ih _ shorter rests rfl
      · exact .blame pair (by rw [together.description pair]) rfl rfl

theorem sequence_alike (kind : SequenceKind) {opened opened' : Token}
    (opens : related opened opened') {tokens others : List Token}
    (h : List.Forall₂ related tokens others) :
    Alike related (ParsedSequence.SameAs related)
      (sequence setting operand kind opened.position tokens)
      (sequence other operand' kind opened'.position others) := by
  cases h with
  | nil => exact sequenceFrom_alike together operands opens .nil
  | cons pair rests =>
    exact .ite (together.isBracket pair) (fun _ => .ok ⟨rfl, rfl, rests⟩) fun _ =>
      sequenceFrom_alike together operands opens (.cons pair rests)

theorem arguments_alike {tokens others : List Token} (h : List.Forall₂ related tokens others) :
    Alike related (Option.Rel (ParsedSequence.SameAs related))
      (arguments? setting operand tokens) (arguments? other operand' others) := by
  cases h with
  | nil => exact .ok .none
  | cons pair rests =>
    refine .ite (together.isBracket pair) (fun _ => ?_) fun _ => .ok .none
    exact (sequence_alike together operands .arguments pair rests).map fun agree =>
      .some ⟨agree.exprs, agree.depth, agree.rest⟩

-- ============================================================================
-- Parts and infix operators
-- ============================================================================

/-- A name after a point, with arguments or without. -/
theorem part_alike_of_point {left : Expr} {depth : Nat} {token token' : Token}
    {rest rest' : List Token} (pair : related token token')
    (rests : List.Forall₂ related rest rest') (point : token.isOperator "." = true) :
    Alike related (Option.Rel (Parsed.SameAs related))
      (part? setting operand left depth (token :: rest))
      (part? other operand' left depth (token' :: rest')) := by
  have point' := (together.isOperator pair).1 point
  unfold part?
  simp only [if_pos point, if_pos point']
  cases rests with
  | nil => exact .blame together.ends (by rw [together.description together.ends]) rfl rfl
  | cons named rests =>
    refine .ite (by rw [together.kind named]) (fun _ => ?_) fun _ =>
      .blame named (by rw [together.description named]) rfl rfl
    rw [together.value named]
    refine (arguments_alike together operands rests).elim (fun _ _ agree => ?_)
      fun _ _ h => .error h
    cases agree with
    | none => exact limited_map_alike pair ⟨rfl, rfl, rests⟩
    | some agree =>
      obtain ⟨exprs, depth, rests⟩ := agree
      exact limited_map_alike pair ⟨by simp only [exprs], by simp only [depth], rests⟩

theorem part_alike : GrowsAlike related (part? setting operand) (part? other operand') := by
  intro tokens others left depth h
  cases h with
  | nil => exact .ok .none
  | @cons token token' rest rest' pair rests =>
    by_cases point : token.isOperator "." = true
    · exact part_alike_of_point together operands pair rests point
    have point' := mt (together.isOperator pair).2 point
    unfold part?
    simp only [if_neg point, if_neg point', together.value pair]
    refine .ite (by rw [together.kind pair]) (fun number => ?_) fun _ => ?_
    · have number' : token'.kind = .number := (together.kind pair).symm.trans number.1
      cases Expr.indexPath token'.value with
      | none => exact .blame pair rfl ⟨number.1, (together.value pair).symm⟩ ⟨number', rfl⟩
      | some path => exact limited_map_alike pair ⟨rfl, rfl, rests⟩
    · cases left with
      | identifier name =>
        refine (arguments_alike together operands (.cons pair rests)).elim (fun _ _ agree => ?_)
          fun _ _ h => .error h
        cases agree with
        | none => exact .ok .none
        | some agree =>
          obtain ⟨exprs, depth, rests⟩ := agree
          exact limited_map_alike pair ⟨by simp only [exprs], by simp only [depth], rests⟩
      | _ => exact .ok .none

theorem infixOperand_alike (least : Nat) :
    GrowsAlike related (infixOperand? setting operand least)
      (infixOperand? other operand' least) := by
  intro tokens others left depth h
  cases h with
  | nil => exact .ok .none
  | @cons token token' rest rest' pair rests =>
    unfold infixOperand?
    refine .ite (by rw [together.kind pair]) (fun _ => ?_) fun _ => .ok .none
    simp only [together.value pair, together.grammar]
    cases other.grammar.binary? token'.value with
    | none => exact .ok .none
    | some info =>
      refine .ite Iff.rfl (fun _ => .ok .none) fun _ => ?_
      refine (operands info.rightBound rests).elim (fun _ _ agree => ?_) fun _ _ h => .error h
      obtain ⟨expr, depth, rests⟩ := agree
      exact limited_map_alike pair ⟨by simp only [expr], by simp only [depth], rests⟩

-- ============================================================================
-- Operands and expressions
-- ============================================================================

theorem withParts_alike {all all' : List Token} {left : Parsed all} {left' : Parsed all'}
    (h : left.SameAs related left') :
    Alike related (Parsed.SameAs related) (withParts setting operand left)
      (withParts other operand' left') :=
  growFrom_alike (part_alike together operands) h

theorem wordOperand_alike {word word' : Token} {rest rest' : List Token}
    (pair : related word word') (rests : List.Forall₂ related rest rest') :
    Alike related (Parsed.SameAs related) (wordOperand setting operand word rest)
      (wordOperand other operand' word' rest') := by
  unfold wordOperand
  simp only [together.value pair]
  refine .ite Iff.rfl (fun _ => .ok ⟨rfl, rfl, rests⟩) fun _ => ?_
  refine .ite Iff.rfl (fun _ => .ok ⟨rfl, rfl, rests⟩) fun _ => ?_
  refine .ite Iff.rfl (fun _ => .ok ⟨rfl, rfl, rests⟩) fun _ => ?_
  refine (arguments_alike together operands rests).elim (fun _ _ agree => ?_)
    fun _ _ h => .error h
  cases agree with
  | none => exact withParts_alike together operands ⟨rfl, rfl, rests⟩
  | @some arguments arguments' agree =>
    obtain ⟨exprs, depth, rests⟩ := agree
    have call : Parsed.SameAs related
        (⟨.call word'.value arguments.exprs, arguments.depth + 1, arguments.rest,
          Nat.lt_succ_of_lt arguments.rest_lt⟩ : Parsed (word :: rest))
        (⟨.call word'.value arguments'.exprs, arguments'.depth + 1, arguments'.rest,
          Nat.lt_succ_of_lt arguments'.rest_lt⟩ : Parsed (word' :: rest')) :=
      ⟨by simp only [exprs], by simp only [depth], rests⟩
    dsimp only
    exact (limited_alike pair call).elim (fun _ _ agree => withParts_alike together operands agree)
      fun _ _ h => .error h

theorem parenthesised_alike {opened opened' : Token} {rest rest' : List Token}
    (opens : related opened opened') (rests : List.Forall₂ related rest rest') :
    Alike related (Parsed.SameAs related) (parenthesised setting operand opened rest)
      (parenthesised other operand' opened' rest') := by
  unfold parenthesised
  refine (operands 0 rests).elim (fun inner inner' agree => ?_) fun _ _ h => .error h
  obtain ⟨expr, deep, left, lt⟩ := inner
  obtain ⟨expr', deep', left', lt'⟩ := inner'
  obtain ⟨rfl, rfl, lefts⟩ := agree
  cases lefts with
  | nil => exact .blame opens rfl trivial trivial
  | cons pair lefts =>
    exact .ite (together.isBracket pair)
      (fun _ => withParts_alike together operands ⟨rfl, rfl, lefts⟩)
      fun _ => .blame pair (by rw [together.description pair]) ⟨rfl, rfl⟩ ⟨rfl, rfl⟩

theorem primary_alike {tokens others : List Token} (h : List.Forall₂ related tokens others) :
    Alike related (Parsed.SameAs related) (primary setting operand tokens)
      (primary other operand' others) := by
  cases h with
  | nil => exact unexpected_alike together together.ends
  | @cons token token' rest rest' pair rests =>
    have hkind' := together.kind pair
    unfold primary
    simp only [together.value pair, together.grammar, ← hkind']
    cases hkind : token.kind with
    | operator =>
      cases other.grammar.unary? token'.value with
      | none => exact unexpected_alike together pair
      | some info =>
        dsimp only
        refine (operands info.priority rests).elim (fun inner inner' agree => ?_)
          fun _ _ h => .error h
        obtain ⟨expr, depth, rests⟩ := agree
        have whole : Parsed.SameAs related
            (⟨.unary token'.value inner.expr, inner.depth + 1, inner.rest,
              Nat.lt_succ_of_lt inner.rest_lt⟩ : Parsed (token :: rest))
            (⟨.unary token'.value inner'.expr, inner'.depth + 1, inner'.rest,
              Nat.lt_succ_of_lt inner'.rest_lt⟩ : Parsed (token' :: rest')) :=
          ⟨by simp only [expr], by simp only [depth], rests⟩
        dsimp only
        exact (limited_alike pair whole).elim
          (fun _ _ agree => withParts_alike together operands agree) fun _ _ h => .error h
    | bracket =>
      refine .ite Iff.rfl (fun _ => parenthesised_alike together operands pair rests) fun _ => ?_
      refine .ite Iff.rfl (fun _ => ?_) fun _ => unexpected_alike together pair
      refine (sequence_alike together operands .items pair rests).elim
        (fun items items' agree => ?_) fun _ _ h => .error h
      obtain ⟨exprs, depth, rests⟩ := agree
      have whole : Parsed.SameAs related
          (⟨.list items.exprs, items.depth + 1, items.rest,
            Nat.lt_succ_of_lt items.rest_lt⟩ : Parsed (token :: rest))
          (⟨.list items'.exprs, items'.depth + 1, items'.rest,
            Nat.lt_succ_of_lt items'.rest_lt⟩ : Parsed (token' :: rest')) :=
        ⟨by simp only [exprs], by simp only [depth], rests⟩
      dsimp only
      exact (limited_alike pair whole).elim
        (fun _ _ agree => withParts_alike together operands agree) fun _ _ h => .error h
    | identifier => exact wordOperand_alike together operands pair rests
    | number =>
      cases hnumber : Expr.ofNumber token'.value with
      | error cause =>
        have number' : token'.kind = .number := hkind'.symm.trans hkind
        have about' := ParseCause.about_of_ofNumber number' hnumber
        have about := ParseCause.about_of_ofNumber hkind (together.value pair ▸ hnumber)
        exact .blame pair rfl about about'
      | ok literal => exact .ok ⟨rfl, rfl, rests⟩
    | text => exact .ok ⟨rfl, rfl, rests⟩
    | endOfInput => exact unexpected_alike together pair

omit operands in
theorem expression_alike (levels : Nat) :
    ReadsAlike related (expression setting levels) (expression other levels) := by
  induction levels with
  | zero =>
    intro tokens others least h
    exact .blame (together.current h) rfl trivial trivial
  | succ levels ih =>
    intro tokens others least h
    unfold expression
    refine (primary_alike together ih h).elim (fun _ _ agree => ?_) fun _ _ h => .error h
    exact growFrom_alike (infixOperand_alike together ih least) agree

end Steps

end Parser

-- ============================================================================
-- Whole lists of tokens
-- ============================================================================

namespace Expr

open ExprMachine.Parser

variable {grammar : Grammar} {tokens others : List Token}

theorem parse_alike {related : Token → Token → Prop}
    (together : Together related ⟨grammar, endPosition tokens⟩ ⟨grammar, endPosition others⟩)
    (h : List.Forall₂ related (tokens.takeWhile (!·.isEnd)) (others.takeWhile (!·.isEnd))) :
    Alike related Eq (parse grammar tokens) (parse grammar others) := by
  unfold parse
  dsimp only
  refine (expression_alike together maxDepth 0 h).elim (fun parsed parsed' agree => ?_)
    fun _ _ h => .error h
  obtain ⟨expr, depth, rest, lt⟩ := parsed
  obtain ⟨expr', depth', rest', lt'⟩ := parsed'
  obtain ⟨rfl, rfl, rests⟩ := agree
  cases rests with
  | nil => exact .ok rfl
  | cons pair _ => exact .blame pair (by rw [together.description pair]) rfl rfl

/-- Tokens with the same symbols are the same tree, or fail for the same cause. -/
theorem parse_of_symbols_eq (grammar : Grammar) (h : Token.symbols tokens = Token.symbols others) :
    (∃ tree, parse grammar tokens = .ok tree ∧ parse grammar others = .ok tree) ∨
      ∃ error error', parse grammar tokens = .error error ∧
        parse grammar others = .error error' ∧ error.cause = error'.cause := by
  let related (token token' : Token) : Prop := token.symbol = token'.symbol
  have spelt : Token.spelt tokens = Token.spelt others := by
    have front (tokens : List Token) : Token.spelt tokens =
        (Token.symbols tokens).takeWhile (·.kind != .endOfInput) := by
      rw [Token.spelt, Token.symbols, Token.symbols, List.takeWhile_map]
      rfl
    rw [front, front, h]
  have counterparts : List.Forall₂ related (tokens.takeWhile (!·.isEnd))
      (others.takeWhile (!·.isEnd)) := by
    have same : List.Forall₂ (· = ·) (Token.spelt tokens) (Token.spelt others) := by
      rw [spelt, List.forall₂_same]
      exact fun _ _ => rfl
    rwa [Token.spelt, Token.spelt, Token.symbols, Token.symbols, List.forall₂_map_left_iff,
      List.forall₂_map_right_iff] at same
  have together : Together related ⟨grammar, endPosition tokens⟩
      ⟨grammar, endPosition others⟩ := ⟨rfl, id, rfl⟩
  have alike := parse_alike together counterparts
  generalize parse grammar tokens = result at alike ⊢
  generalize parse grammar others = result' at alike ⊢
  cases alike with
  | @ok tree tree' same => exact .inl ⟨tree, rfl, by rw [same]⟩
  | error accord => exact .inr ⟨_, _, rfl, rfl, accord.cause⟩

/-- Some token is to blame for every error, or the mark of the end. -/
theorem exists_blames_of_parse {error : ParseError} (h : parse grammar tokens = .error error) :
    ∃ token, (token ∈ tokens.takeWhile (!·.isEnd) ∨
      token = ⟨.endOfInput, endPosition tokens, ""⟩) ∧ error.Blames token := by
  let related (token token' : Token) : Prop := token = token' ∧
    (token ∈ tokens.takeWhile (!·.isEnd) ∨ token = ⟨.endOfInput, endPosition tokens, ""⟩)
  have counterparts : List.Forall₂ related (tokens.takeWhile (!·.isEnd))
      (tokens.takeWhile (!·.isEnd)) := by
    rw [List.forall₂_same]
    exact fun token hmem => ⟨rfl, .inl hmem⟩
  have together : Together related ⟨grammar, endPosition tokens⟩ ⟨grammar, endPosition tokens⟩ :=
    ⟨rfl, fun pair => congrArg Token.symbol pair.1, rfl, .inr rfl⟩
  have alike := parse_alike together counterparts
  rw [h] at alike
  cases alike with
  | error accord =>
    obtain ⟨token, _, pair, blames, -⟩ := accord.blames
    exact ⟨token, pair.2, blames⟩

end Expr

end ExprMachine
