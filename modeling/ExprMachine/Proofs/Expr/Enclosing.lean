/-
  ExprMachine.Proofs.Expr.Enclosing

  The pairs of parentheses in the symbols of a printed tree: each of them stands around an
  operand or a receiver that the printer has put into parentheses. What is left without
  such a pair is a way to write the tree only if the pair stood around a prefix operator
  which nothing behind it could have been taken for a part of.
-/
import ExprMachine.Proofs.Expr.Bracketing
import ExprMachine.Proofs.Expr.Rendered

namespace ExprMachine

open ExprMachine.Expr Reading

variable {grammar : Grammar} {keywords : List String}

-- ============================================================================
-- Outlines of printed trees
-- ============================================================================

namespace Expr

/-- The outline of a path of indexes. -/
def indexOutline (indexes : List String) : List Symbol :=
  indexes.flatMap fun _ => [.operator ".", .leaf]

theorem outline_indexSymbols {indexes : List String} (h : ∀ index ∈ indexes, IsIndex index) :
    outline (indexSymbols indexes) = indexOutline indexes := by
  induction indexes using indexSymbols.induct with
  | case1 => rfl
  | case2 index =>
    have denotes := indexPath_single (ofIndex_toList (h index (by simp)))
    rw [indexSymbols, outline_cons, Symbol.outline_indexes (by simp [Symbol.isIndexes]) denotes]
    rfl
  | case3 first second more ih =>
    have denotes := indexPath_pair (ofIndex_toList (h first (by simp)))
      (ofIndex_toList (h second (by simp)))
    have others := ih fun index mem => h index (by simp [mem])
    rw [indexSymbols, outline_cons, Symbol.outline_indexes (by simp [Symbol.isIndexes]) denotes,
      others]
    rfl

theorem balanced_indexSymbols (indexes : List String) : Balanced (indexSymbols indexes) := by
  induction indexes using indexSymbols.induct with
  | case1 => rfl
  | case2 => rfl
  | case3 _ _ _ ih => exact awaited_number.trans ih

theorem balanced_wrap {symbols : List Symbol} (wrapped : Bool) (h : Balanced symbols) :
    Balanced (wrap wrapped symbols) := by
  cases wrapped with
  | false => exact h
  | true => exact h.parentheses

theorem balanced_intercalate {pieces : List (List Symbol)} (h : ∀ piece ∈ pieces, Balanced piece) :
    Balanced ([Symbol.operator ","].intercalate pieces) := by
  induction pieces with
  | nil => rfl
  | cons piece pieces ih =>
    obtain ⟨first, others⟩ := List.forall_mem_cons.1 h
    cases pieces with
    | nil => simpa using first
    | cons second pieces =>
      rw [List.intercalate_cons_cons, List.append_assoc]
      exact first.append (awaited_operator.trans (ih others))

theorem spellAll_eq_map (exprs : List Expr) :
    spellAll grammar exprs = exprs.map (spell grammar · []) := by
  induction exprs with
  | nil => rfl
  | cons expr exprs ih => rw [spellAll, ih, List.map_cons]

theorem takesParts_of_isOperation {expr : Expr} (h : expr.isOperation = true) :
    takesParts expr = false := by
  cases expr with
  | unary | binary => rfl
  | _ => cases h

/-- Every bracket of a printed tree has its match. -/
theorem balanced_spell (expr : Expr) (indexes : List String) :
    Balanced (spell grammar expr indexes) := by
  have path := balanced_indexSymbols
  have sequence {exprs : List Expr}
      (h : ∀ expr ∈ exprs, ∀ indexes, Balanced (spell grammar expr indexes)) :
      Balanced ([Symbol.operator ","].intercalate (spellAll grammar exprs)) := by
    refine balanced_intercalate ?_
    rw [spellAll_eq_map]
    simpa using fun expr mem => h expr mem []
  induction expr generalizing indexes with
  | unary symbol operand ih =>
    rw [spell]
    exact awaited_operator.trans ((balanced_wrap _ (ih [])).append (path _))
  | binary symbol left right ihLeft ihRight =>
    rw [spell]
    exact (balanced_wrap _ (ihLeft [])).append
      (awaited_operator.trans ((balanced_wrap _ (ihRight [])).append (path _)))
  | methodCall receiver name arguments ih ihArguments =>
    rw [spell]
    exact (balanced_wrap _ (ih [])).append (awaited_operator.trans
      (awaited_word.trans ((sequence ihArguments).between rfl (path _))))
  | call name arguments ih =>
    rw [spell]
    exact awaited_word.trans ((sequence ih).between rfl (path _))
  | property receiver name ih =>
    rw [spell]
    split
    · split
      · exact ih _
      · exact (balanced_wrap _ (ih [])).append (path _)
    · exact (balanced_wrap _ (ih [])).append (awaited_operator.trans (awaited_word.trans (path _)))
  | list items ih =>
    rw [spell]
    exact (sequence ih).between rfl (path _)
  | float value =>
    rw [spell, floatSymbol]
    split
    · exact awaited_number.trans (path _)
    · exact awaited_word.trans (path _)
  | text value => exact (awaited_of_other (by simp)).trans (path _)
  | identifier | bool | nil => exact awaited_word.trans (path _)
  | int => exact awaited_number.trans (path _)

theorem balanced_sequence (exprs : List Expr) :
    Balanced ([Symbol.operator ","].intercalate (spellAll grammar exprs)) := by
  refine balanced_intercalate ?_
  rw [spellAll_eq_map]
  simpa using fun expr _ => balanced_spell expr []

end Expr

namespace Spellable

variable {expr : Expr}

/-- The name of a part that starts with a digit is an index. -/
theorem isIndex {receiver : Expr} {name : String}
    (h : Spellable grammar keywords (.property receiver name)) (index : isIndexName name = true) :
    IsIndex name := by
  cases h with
  | property _ part =>
    refine part.resolve_left fun word => ?_
    rw [word.not_isIndexName] at index
    cases index

/-- Indexes behind a printed tree are spelt behind its own symbols. -/
theorem outline_spell (h : Spellable grammar keywords expr) {indexes : List String}
    (path : ∀ index ∈ indexes, IsIndex index) :
    outline (spell grammar expr indexes) =
      outline (spell grammar expr []) ++ indexOutline indexes := by
  have behind := outline_indexSymbols path
  induction h generalizing indexes with
  | property owner part ih =>
    rename_i receiver name
    have isIndex := isIndex (.property owner part)
    rw [spell, spell]
    split
    · rename_i index
      have longer : ∀ other ∈ name :: indexes, IsIndex other :=
        List.forall_mem_cons.2 ⟨isIndex index, path⟩
      have alone : ∀ other ∈ [name], IsIndex other := by simpa using isIndex index
      split
      · rw [ih longer (outline_indexSymbols longer), ih alone (outline_indexSymbols alone),
          List.append_assoc]
        rfl
      · rw [outline_append, outline_append, outline_indexSymbols longer,
          outline_indexSymbols alone, List.append_assoc]
        rfl
    · simp [behind, indexSymbols]
  | _ =>
    rw [spell, spell]
    simp [behind, indexSymbols]

/-- A part is a name after a point, whether it is an index or not. -/
theorem outline_property {receiver : Expr} {name : String}
    (h : Spellable grammar keywords (.property receiver name)) :
    outline (spell grammar (.property receiver name) []) =
      outline (wrap (!takesParts receiver) (spell grammar receiver [])) ++
        [.operator ".", .leaf] := by
  rw [spell]
  split
  · rename_i index
    have alone : ∀ other ∈ [name], IsIndex other := by simpa using h.isIndex index
    split
    · rename_i takes
      cases h with
      | property owner =>
        rw [owner.outline_spell alone, takes]
        rfl
    · rename_i plain
      rw [outline_append, outline_indexSymbols alone, Bool.eq_false_iff.2 plain]
      rfl
  · simp [indexSymbols]

/-- A literal of one token counts once. -/
theorem outline_literal (h : Spellable grammar keywords expr) (literal : expr.isLiteral = true) :
    outline (spell grammar expr []) = [.leaf] := by
  cases h with
  | float positive =>
    rcases floatText_cases positive with ⟨whole, fraction, htext, hwhole, -, hsymbol⟩ | ⟨-, hsymbol⟩
    · obtain ⟨c, rest, rfl⟩ := List.exists_cons_of_ne_nil hwhole.1
      rw [spell, hsymbol]
      exact congrArg (· ++ []) (Symbol.outline_of_isDigit htext (hwhole.2 c (by simp)))
    · rw [spell, hsymbol]
      rfl
  | int positive =>
    obtain ⟨number, hnumber⟩ := toList_toString_toInt positive
    obtain ⟨c, digits, hdigits, hc, -⟩ := exists_decimal_cons number
    rw [spell]
    exact congrArg (· ++ []) (Symbol.outline_of_isDigit (hnumber.trans hdigits) hc)
  | bool | nil | text => rfl
  | _ => cases literal

end Spellable

namespace Expr

@[simp] theorem size_wrap (wrapped : Bool) (symbols : List Symbol) :
    size (outline (wrap wrapped symbols)) = size (outline symbols) := by
  cases wrapped <;> simp [wrap]

theorem size_sequence {exprs : List Expr}
    (h : ∀ expr ∈ exprs, size (outline (spell grammar expr [])) = expr.extent) :
    size (outline ([.operator ","].intercalate (spellAll grammar exprs))) = extentAll exprs := by
  induction exprs with
  | nil => rfl
  | cons expr exprs ih =>
    obtain ⟨first, others⟩ := List.forall_mem_cons.1 h
    cases exprs with
    | nil => simp [spellAll, extentAll, first]
    | cons second exprs =>
      have comma : (Symbol.operator ",").size = 1 := by decide
      have behind := ih others
      rw [spellAll] at behind
      rw [spellAll, spellAll, List.intercalate_cons_cons, extentAll]
      simp [first, behind, comma]

end Expr

/-- The symbols of a printed tree count as much as the tree. -/
theorem Spellable.size_eq {expr : Expr} (h : Spellable grammar keywords expr) :
    size (outline (spell grammar expr [])) = expr.extent := by
  induction h with
  | unary _ shape _ _ ih =>
    have counts := Symbol.size_operator shape.ne_point
    simp [spell, indexSymbols, counts, ih, extent, Nat.add_comm]
  | binary _ shape _ _ ihLeft ihRight =>
    have counts := Symbol.size_operator shape.ne_point
    simp [spell, indexSymbols, counts, ihLeft, ihRight, extent, Nat.add_comm 1]
  | methodCall _ _ _ _ ih ihArguments =>
    have arguments := size_sequence ihArguments
    simp [spell, indexSymbols, ih, arguments, extent, Nat.add_comm 1]
  | call _ _ _ ih =>
    have arguments := size_sequence ih
    simp [spell, indexSymbols, arguments, extent, Nat.add_comm 1]
  | property owner part ih =>
    rw [outline_property (.property owner part)]
    simp [ih, extent]
  | float positive =>
    rw [outline_literal (@Spellable.float grammar keywords _ positive) rfl]
    rfl
  | int positive =>
    rw [outline_literal (@Spellable.int grammar keywords _ positive) rfl]
    rfl
  | identifier | bool | nil | text => simp [spell, indexSymbols, extent]
  | list _ _ ih =>
    have items := size_sequence ih
    have opened : (Symbol.bracket "[").size = 1 := by decide
    have closed : (Symbol.bracket "]").size = 1 := by decide
    simp only [spell, indexSymbols, outline_cons, outline_append, size_append, items]
    simp [opened, closed, extent]
    omega

-- ============================================================================
-- Pairs of parentheses
-- ============================================================================

/-- A stretch of a printed tree. -/
inductive Stretch where
  /-- A tree and a path of indexes after it. -/
  | bare (expr : Expr) (indexes : List String)
  /-- An operand or a receiver, with the parentheses that it has been put into. -/
  | operand (wrapped : Bool) (expr : Expr)
  /-- The expressions of a sequence. -/
  | sequence (exprs : List Expr)

namespace Stretch

/-- The symbols of the stretch. -/
def symbols (grammar : Grammar) : Stretch → List Symbol
  | .bare expr indexes => spell grammar expr indexes
  | .operand wrapped expr => wrap wrapped (spell grammar expr [])
  | .sequence exprs => [.operator ","].intercalate (spellAll grammar exprs)

/-- Whether the stretch can be spelt. -/
def Valid (grammar : Grammar) (keywords : List String) : Stretch → Prop
  | .bare expr indexes => Spellable grammar keywords expr ∧ ∀ index ∈ indexes, IsIndex index
  | .operand _ expr => Spellable grammar keywords expr
  | .sequence exprs => ∀ expr ∈ exprs, Spellable grammar keywords expr

end Stretch

/-- `Encloses grammar stretch before inner after`: in the stretch the printer has put the inner
    tree into parentheses, with these symbols before and after them. -/
inductive Encloses (grammar : Grammar) :
    Stretch → List Symbol → Expr → List Symbol → Prop where
  | here {expr} (plain : takesParts expr = false) :
      Encloses grammar (.operand true expr) [] expr []
  | paired {expr before inner after}
      (inside : Encloses grammar (.bare expr []) before inner after) :
      Encloses grammar (.operand true expr) (.bracket "(" :: before) inner
        (after ++ [.bracket ")"])
  | alone {expr before inner after} (inside : Encloses grammar (.bare expr []) before inner after) :
      Encloses grammar (.operand false expr) before inner after
  | unary {symbol operand before inner after}
      (inside : Encloses grammar
        (.operand (wrapsUnder grammar (unaryPriority grammar symbol) operand) operand)
        before inner after) :
      Encloses grammar (.bare (.unary symbol operand) []) (.operator symbol :: before) inner after
  | left {symbol left right before inner after}
      (inside : Encloses grammar
        (.operand (wrapsBeside grammar (binaryPriority grammar symbol) (groupsRight grammar symbol)
          left) left) before inner after) :
      Encloses grammar (.bare (.binary symbol left right) []) before inner
        (after ++ .operator symbol :: wrap (wrapsBeside grammar (binaryPriority grammar symbol)
          (!groupsRight grammar symbol) right) (spell grammar right []))
  | right {symbol left right before inner after}
      (inside : Encloses grammar
        (.operand (wrapsBeside grammar (binaryPriority grammar symbol)
          (!groupsRight grammar symbol) right) right) before inner after) :
      Encloses grammar (.bare (.binary symbol left right) [])
        (wrap (wrapsBeside grammar (binaryPriority grammar symbol) (groupsRight grammar symbol)
          left) (spell grammar left []) ++ .operator symbol :: before) inner after
  | word {receiver name indexes before inner after} (word : isIndexName name = false)
      (inside : Encloses grammar (.operand (!takesParts receiver) receiver) before inner after) :
      Encloses grammar (.bare (.property receiver name) indexes) before inner
        (after ++ .operator "." :: .word name :: indexSymbols indexes)
  | index {receiver name indexes before inner after} (index : isIndexName name = true)
      (takes : takesParts receiver = true)
      (inside : Encloses grammar (.bare receiver (name :: indexes)) before inner after) :
      Encloses grammar (.bare (.property receiver name) indexes) before inner after
  | indexed {receiver name indexes before inner after} (index : isIndexName name = true)
      (plain : takesParts receiver = false)
      (inside : Encloses grammar (.operand true receiver) before inner after) :
      Encloses grammar (.bare (.property receiver name) indexes) before inner
        (after ++ indexSymbols (name :: indexes))
  | owner {receiver name arguments indexes before inner after}
      (inside : Encloses grammar (.operand (!takesParts receiver) receiver) before inner after) :
      Encloses grammar (.bare (.methodCall receiver name arguments) indexes) before inner
        (after ++ .operator "." :: .word name :: .bracket "(" ::
          ([.operator ","].intercalate (spellAll grammar arguments) ++
            .bracket ")" :: indexSymbols indexes))
  | argument {receiver name arguments indexes before inner after}
      (inside : Encloses grammar (.sequence arguments) before inner after) :
      Encloses grammar (.bare (.methodCall receiver name arguments) indexes)
        (wrap (!takesParts receiver) (spell grammar receiver []) ++
          .operator "." :: .word name :: .bracket "(" :: before) inner
        (after ++ .bracket ")" :: indexSymbols indexes)
  | call {name arguments indexes before inner after}
      (inside : Encloses grammar (.sequence arguments) before inner after) :
      Encloses grammar (.bare (.call name arguments) indexes)
        (.word name :: .bracket "(" :: before) inner
        (after ++ .bracket ")" :: indexSymbols indexes)
  | list {items indexes before inner after}
      (inside : Encloses grammar (.sequence items) before inner after) :
      Encloses grammar (.bare (.list items) indexes) (.bracket "[" :: before) inner
        (after ++ .bracket "]" :: indexSymbols indexes)
  | only {expr before inner after} (inside : Encloses grammar (.bare expr []) before inner after) :
      Encloses grammar (.sequence [expr]) before inner after
  | first {expr second exprs before inner after}
      (inside : Encloses grammar (.bare expr []) before inner after) :
      Encloses grammar (.sequence (expr :: second :: exprs)) before inner
        (after ++ .operator "," :: [.operator ","].intercalate (spellAll grammar (second :: exprs)))
  | later {expr second exprs before inner after}
      (inside : Encloses grammar (.sequence (second :: exprs)) before inner after) :
      Encloses grammar (.sequence (expr :: second :: exprs))
        (spell grammar expr [] ++ .operator "," :: before) inner after

namespace Encloses

variable {stretch : Stretch} {before after : List Symbol} {inner : Expr}

/-- The pair stands where it is said to stand. -/
theorem symbols_eq (h : Encloses grammar stretch before inner after) :
    stretch.symbols grammar =
      before ++ .bracket "(" :: (spell grammar inner [] ++ .bracket ")" :: after) := by
  induction h with
  | here => rfl
  | paired _ ih =>
    simp only [Stretch.symbols] at ih ⊢
    simp [wrap, ih]
  | alone _ ih => exact ih
  | unary _ ih =>
    simp only [Stretch.symbols] at ih ⊢
    simp [spell, ih, indexSymbols]
  | left _ ih | right _ ih | owner _ ih | argument _ ih | call _ ih | list _ ih =>
    simp only [Stretch.symbols] at ih ⊢
    simp [spell, ih, indexSymbols]
  | word word _ ih =>
    simp only [Stretch.symbols] at ih ⊢
    simp [spell_property_word word, ih]
  | index index takes _ ih =>
    simp only [Stretch.symbols] at ih ⊢
    simp [spell, index, takes, ih]
  | indexed index plain _ ih =>
    simp only [Stretch.symbols] at ih ⊢
    simp [spell, index, plain, ih]
  | only _ ih =>
    simp only [Stretch.symbols] at ih ⊢
    simp [spellAll, ih]
  | first _ ih =>
    simp only [Stretch.symbols] at ih ⊢
    simp [spellAll, ih, List.intercalate_cons_cons]
  | later _ ih =>
    simp only [Stretch.symbols, spellAll] at ih ⊢
    simp [ih, List.intercalate_cons_cons]

/-- A parenthesis in front of a printed tree is not behind an operand. -/
theorem opensArguments_eq_false (h : Encloses grammar stretch before inner after) :
    opensArguments after = false := by
  have behind {after more : List Symbol} (h : opensArguments after = false)
      (hmore : opensArguments more = false) : opensArguments (after ++ more) = false := by
    cases after with
    | nil => exact hmore
    | cons symbol after => exact h
  have path (indexes : List String) : opensArguments (indexSymbols indexes) = false := by
    cases indexes using indexSymbols.induct with
    | case1 | case2 | case3 => rfl
  induction h with
  | here => rfl
  | alone _ ih | unary _ ih | right _ ih | index _ _ _ ih | only _ ih | later _ ih => exact ih
  | indexed _ _ _ ih => exact behind ih (path _)
  | _ => exact behind ‹_› rfl

end Encloses

/-- A property of trees that the operands, receivers, arguments and items of a tree have with
    the tree. -/
structure Hereditary (P : Expr → Prop) : Prop where
  unary {symbol operand} : P (.unary symbol operand) → P operand
  binary {symbol left right} : P (.binary symbol left right) → P left ∧ P right
  property {receiver name} : P (.property receiver name) → P receiver
  methodCall {receiver name arguments} :
    P (.methodCall receiver name arguments) → P receiver ∧ ∀ argument ∈ arguments, P argument
  call {name arguments} : P (.call name arguments) → ∀ argument ∈ arguments, P argument
  list {items} : P (.list items) → ∀ item ∈ items, P item

/-- Whether the trees of the stretch have the property. -/
def Stretch.All (P : Expr → Prop) : Stretch → Prop
  | .bare expr _ | .operand _ expr => P expr
  | .sequence exprs => ∀ expr ∈ exprs, P expr

/-- What the printer puts into parentheses has the properties of the whole. -/
theorem Encloses.hereditary {P : Expr → Prop} {stretch : Stretch} {before after : List Symbol}
    {inner : Expr} (h : Encloses grammar stretch before inner after) (passes : Hereditary P)
    (all : stretch.All P) : P inner := by
  induction h with
  | here => exact all
  | paired _ ih | alone _ ih => exact ih all
  | unary _ ih => exact ih (passes.unary all)
  | left _ ih => exact ih (passes.binary all).1
  | right _ ih => exact ih (passes.binary all).2
  | word _ _ ih | index _ _ _ ih | indexed _ _ _ ih => exact ih (passes.property all)
  | owner _ ih => exact ih (passes.methodCall all).1
  | argument _ ih => exact ih (passes.methodCall all).2
  | call _ ih => exact ih (passes.call all)
  | list _ ih => exact ih (passes.list all)
  | only _ ih | first _ ih => exact ih (all _ List.mem_cons_self)
  | later _ ih => exact ih (List.forall_mem_cons.1 all).2

theorem Spellable.hereditary : Hereditary (Spellable grammar keywords) where
  unary h := by
    cases h with
    | unary _ _ _ operand => exact operand
  binary h := by
    cases h with
    | binary _ _ left right => exact ⟨left, right⟩
  property h := by
    cases h with
    | property owner _ => exact owner
  methodCall h := by
    cases h with
    | methodCall _ owner _ each => exact ⟨owner, each⟩
  call h := by
    cases h with
    | call _ _ each => exact each
  list h := by
    cases h with
    | list _ each => exact each

-- ============================================================================
-- All pairs
-- ============================================================================

namespace Reading

/-- Whether an operand may start behind the symbols, so that a parenthesis there does not open
    the arguments of a call. -/
def OpensOperand (before : List Symbol) : Prop :=
  before.getLast?.all Symbol.precedesOperand = true

instance (before : List Symbol) : Decidable (OpensOperand before) :=
  inferInstanceAs (Decidable (before.getLast?.all Symbol.precedesOperand = true))

theorem OpensOperand.of_append {before left : List Symbol} (h : OpensOperand (before ++ left)) :
    OpensOperand left := by
  cases hlast : left.getLast? with
  | none =>
    rw [OpensOperand, hlast]
    rfl
  | some last =>
    rw [OpensOperand, List.getLast?_append, hlast] at h
    rw [OpensOperand, hlast]
    exact h

theorem OpensOperand.of_cons {symbol : Symbol} {left : List Symbol}
    (h : OpensOperand (symbol :: left)) : OpensOperand left :=
  @of_append [symbol] left h

end Reading

theorem Expr.not_mem_indexSymbols (indexes : List String) (bracket : String) :
    .bracket bracket ∉ indexSymbols indexes := by
  induction indexes using indexSymbols.induct with
  | case1 => simp [indexSymbols]
  | case2 => simp [indexSymbols]
  | case3 _ _ _ ih => simp [indexSymbols, ih]

/-- Every pair of parentheses in the stretch that opens an operand is one that the printer has
    put around a tree. -/
def Stretch.Located (grammar : Grammar) (stretch : Stretch) : Prop :=
  ∀ before inside after, Balanced inside → OpensOperand before →
    stretch.symbols grammar = before ++ .bracket "(" :: (inside ++ .bracket ")" :: after) →
      ∃ inner, Encloses grammar stretch before inner after ∧ inside = spell grammar inner []

namespace Stretch

theorem located_operand {wrapped : Bool} {expr : Expr}
    (plain : wrapped = true → takesParts expr = false)
    (h : (Stretch.bare expr []).Located grammar) :
    (Stretch.operand wrapped expr).Located grammar := by
  intro before inside after balanced opens same
  cases wrapped with
  | false =>
    obtain ⟨inner, encloses, rfl⟩ := h before inside after balanced opens same
    exact ⟨inner, .alone encloses, rfl⟩
  | true =>
    replace same : .bracket "(" :: (spell grammar expr [] ++ [.bracket ")"]) =
        before ++ .bracket "(" :: (inside ++ .bracket ")" :: after) := same
    cases before with
    | nil =>
      obtain ⟨rfl, rfl⟩ := Balanced.match_unique (by decide) (List.cons.inj same).2
        (balanced_spell expr []) balanced
      exact ⟨expr, .here (plain rfl), rfl⟩
    | cons symbol before =>
      obtain ⟨rfl, hinside⟩ := List.cons.inj same
      rcases (balanced_spell expr []).split_pair balanced hinside with
        ⟨left, hspell, rfl⟩ | ⟨left, -, none⟩
      · obtain ⟨inner, encloses, rfl⟩ := h before inside left balanced opens.of_cons hspell
        exact ⟨inner, .paired encloses, rfl⟩
      · have := congrArg List.length none
        simp only [List.length_append, List.length_cons, List.length_nil] at this
        omega

theorem located_sequence {exprs : List Expr}
    (h : ∀ expr ∈ exprs, (Stretch.bare expr []).Located grammar) :
    (Stretch.sequence exprs).Located grammar := by
  induction exprs with
  | nil =>
    intro before inside after _ _ same
    simp [symbols, spellAll] at same
  | cons expr exprs ih =>
    obtain ⟨first, others⟩ := List.forall_mem_cons.1 h
    intro before inside after balanced opens same
    cases exprs with
    | nil =>
      rw [symbols, spellAll, spellAll, List.intercalate_singleton] at same
      obtain ⟨inner, encloses, rfl⟩ := first before inside after balanced opens same
      exact ⟨inner, .only encloses, rfl⟩
    | cons second exprs =>
      rw [symbols, spellAll, spellAll, List.intercalate_cons_cons, List.append_assoc] at same
      rcases (balanced_spell expr []).split_pair balanced same with
        ⟨left, hspell, rfl⟩ | ⟨left, rfl, hrest⟩
      · obtain ⟨inner, encloses, rfl⟩ := first before inside left balanced opens hspell
        exact ⟨inner, .first encloses, rfl⟩
      · cases left with
        | nil => cases (List.cons.inj hrest).1
        | cons symbol left =>
          obtain ⟨rfl, hothers⟩ := List.cons.inj hrest
          obtain ⟨inner, encloses, rfl⟩ :=
            ih others left inside after balanced opens.of_append.of_cons hothers
          exact ⟨inner, .later encloses, rfl⟩

theorem located_unary {symbol : String} {operand : Expr}
    (h : (Stretch.bare operand []).Located grammar) :
    (Stretch.bare (.unary symbol operand) []).Located grammar := by
  intro before inside after balanced opens same
  rw [symbols, spell, indexSymbols, List.append_nil] at same
  cases before with
  | nil => cases (List.cons.inj same).1
  | cons first before =>
    obtain ⟨rfl, hinside⟩ := List.cons.inj same
    obtain ⟨inner, encloses, rfl⟩ := located_operand
      (fun wraps => takesParts_of_isOperation (isOperation_of_wrapsUnder wraps)) h before inside
        after balanced opens.of_cons hinside
    exact ⟨inner, .unary encloses, rfl⟩

theorem located_binary {symbol : String} {left right : Expr}
    (hleft : (Stretch.bare left []).Located grammar)
    (hright : (Stretch.bare right []).Located grammar) :
    (Stretch.bare (.binary symbol left right) []).Located grammar := by
  intro before inside after balanced opens same
  have plain {priority : Nat} {onTie : Bool} {expr : Expr}
      (wraps : wrapsBeside grammar priority onTie expr = true) : takesParts expr = false :=
    takesParts_of_isOperation (isOperation_of_wrapsBeside wraps)
  rw [symbols, spell, indexSymbols, List.append_nil] at same
  rcases (balanced_wrap _ (balanced_spell left [])).split_pair balanced same with
    ⟨behind, hfirst, rfl⟩ | ⟨behind, rfl, hsecond⟩
  · obtain ⟨inner, encloses, rfl⟩ :=
      located_operand plain hleft before inside behind balanced opens hfirst
    exact ⟨inner, .left encloses, rfl⟩
  · cases behind with
    | nil => cases (List.cons.inj hsecond).1
    | cons first behind =>
      obtain ⟨rfl, hinside⟩ := List.cons.inj hsecond
      obtain ⟨inner, encloses, rfl⟩ := located_operand plain hright behind inside after balanced
        opens.of_append.of_cons hinside
      exact ⟨inner, .right encloses, rfl⟩

theorem located_methodCall {receiver : Expr} {name : String} {arguments : List Expr}
    {indexes : List String} (h : (Stretch.bare receiver []).Located grammar)
    (harguments : (Stretch.sequence arguments).Located grammar) :
    (Stretch.bare (.methodCall receiver name arguments) indexes).Located grammar := by
  intro before inside after balanced opens same
  rw [symbols, spell] at same
  rcases (balanced_wrap _ (balanced_spell receiver [])).split_pair balanced same with
    ⟨behind, howner, rfl⟩ | ⟨behind, rfl, hbehind⟩
  · obtain ⟨inner, encloses, rfl⟩ :=
      located_operand (by simp) h before inside behind balanced opens howner
    exact ⟨inner, .owner encloses, rfl⟩
  · rcases behind with _ | ⟨_, _ | ⟨_, _ | ⟨_, behind⟩⟩⟩
    · cases (List.cons.inj hbehind).1
    · cases (List.cons.inj (List.cons.inj hbehind).2).1
    · -- The parenthesis opens the arguments.
      obtain ⟨rfl, hname⟩ := List.cons.inj hbehind
      obtain ⟨rfl, -⟩ := List.cons.inj hname
      cases opens.of_append
    · obtain ⟨rfl, hname⟩ := List.cons.inj hbehind
      obtain ⟨rfl, hopen⟩ := List.cons.inj hname
      obtain ⟨rfl, hinside⟩ := List.cons.inj hopen
      obtain ⟨left, hsequence, rfl⟩ := (balanced_sequence arguments).pair_of_not_mem balanced
        hinside (by simp [not_mem_indexSymbols])
      obtain ⟨inner, encloses, rfl⟩ := harguments behind inside left balanced
        opens.of_append.of_cons.of_cons.of_cons hsequence
      exact ⟨inner, .argument encloses, rfl⟩

theorem located_call {name : String} {arguments : List Expr} {indexes : List String}
    (h : (Stretch.sequence arguments).Located grammar) :
    (Stretch.bare (.call name arguments) indexes).Located grammar := by
  intro before inside after balanced opens same
  rw [symbols, spell] at same
  rcases before with _ | ⟨_, _ | ⟨_, before⟩⟩
  · cases (List.cons.inj same).1
  · obtain ⟨rfl, -⟩ := List.cons.inj same
    cases opens
  · obtain ⟨rfl, hopen⟩ := List.cons.inj same
    obtain ⟨rfl, hinside⟩ := List.cons.inj hopen
    obtain ⟨left, hsequence, rfl⟩ := (balanced_sequence arguments).pair_of_not_mem balanced hinside
      (by simp [not_mem_indexSymbols])
    obtain ⟨inner, encloses, rfl⟩ :=
      h before inside left balanced opens.of_cons.of_cons hsequence
    exact ⟨inner, .call encloses, rfl⟩

theorem located_property {receiver : Expr} {name : String} {indexes : List String}
    (h : ∀ indexes, indexes = [] ∨ takesParts receiver = true →
      (Stretch.bare receiver indexes).Located grammar) :
    (Stretch.bare (.property receiver name) indexes).Located grammar := by
  intro before inside after balanced opens same
  have owner := @balanced_spell grammar receiver []
  cases index : isIndexName name with
  | true =>
    cases takes : takesParts receiver with
    | true =>
      rw [symbols, spell, if_pos index, if_pos takes] at same
      obtain ⟨inner, encloses, rfl⟩ :=
        h (name :: indexes) (.inr takes) before inside after balanced opens same
      exact ⟨inner, .index index takes encloses, rfl⟩
    | false =>
      rw [symbols, spell, if_pos index, if_neg (by simp [takes])] at same
      obtain ⟨left, howner, rfl⟩ := (balanced_wrap true owner).pair_of_not_mem balanced same
        (not_mem_indexSymbols _ _)
      obtain ⟨inner, encloses, rfl⟩ :=
        located_operand (fun _ => takes) (h [] (.inl rfl)) before inside left balanced opens howner
      exact ⟨inner, .indexed index takes encloses, rfl⟩
  | false =>
    rw [symbols, spell_property_word index] at same
    obtain ⟨left, howner, rfl⟩ := (balanced_wrap _ owner).pair_of_not_mem balanced same
      (by simp [not_mem_indexSymbols])
    obtain ⟨inner, encloses, rfl⟩ :=
      located_operand (by simp) (h [] (.inl rfl)) before inside left balanced opens howner
    exact ⟨inner, .word index encloses, rfl⟩

theorem located_list {items : List Expr} {indexes : List String}
    (h : (Stretch.sequence items).Located grammar) :
    (Stretch.bare (.list items) indexes).Located grammar := by
  intro before inside after balanced opens same
  rw [symbols, spell] at same
  cases before with
  | nil => exact absurd (List.cons.inj same).1 (by simp)
  | cons first before =>
    obtain ⟨rfl, hinside⟩ := List.cons.inj same
    obtain ⟨left, hsequence, rfl⟩ := (balanced_sequence items).pair_of_not_mem balanced hinside
      (by simp [not_mem_indexSymbols])
    obtain ⟨inner, encloses, rfl⟩ := h before inside left balanced opens.of_cons hsequence
    exact ⟨inner, .list encloses, rfl⟩

/-- In symbols without a parenthesis there is no pair. -/
theorem located_of_not_mem {stretch : Stretch} (none : .bracket "(" ∉ stretch.symbols grammar) :
    stretch.Located grammar := by
  intro before inside after _ _ same
  rw [same] at none
  exact absurd (List.mem_append_right _ List.mem_cons_self) none

/-- In a printed tree the printer has put every such pair around an operand or a receiver. -/
theorem located_bare (expr : Expr) (indexes : List String)
    (path : indexes = [] ∨ takesParts expr = true) :
    (Stretch.bare expr indexes).Located grammar := by
  induction expr generalizing indexes with
  | unary symbol operand ih =>
    obtain rfl := path.resolve_right (by simp [takesParts])
    exact located_unary (ih [] (.inl rfl))
  | binary symbol left right ihLeft ihRight =>
    obtain rfl := path.resolve_right (by simp [takesParts])
    exact located_binary (ihLeft [] (.inl rfl)) (ihRight [] (.inl rfl))
  | methodCall receiver name arguments ih ihArguments =>
    exact located_methodCall (ih [] (.inl rfl))
      (located_sequence fun expr mem => ihArguments expr mem [] (.inl rfl))
  | call name arguments ih =>
    exact located_call (located_sequence fun expr mem => ih expr mem [] (.inl rfl))
  | property receiver name ih => exact located_property ih
  | list items ih => exact located_list (located_sequence fun expr mem => ih expr mem [] (.inl rfl))
  | float value =>
    apply located_of_not_mem
    rw [symbols, spell, floatSymbol]
    split <;> simp [not_mem_indexSymbols]
  | _ =>
    apply located_of_not_mem
    rw [symbols, spell]
    simp [not_mem_indexSymbols]

end Stretch

end ExprMachine
