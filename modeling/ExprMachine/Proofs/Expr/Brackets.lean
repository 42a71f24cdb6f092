/-
  ExprMachine.Proofs.Expr.Brackets

  Which closing bracket matches an opening one. In whatever is read every bracket has its
  match.
-/
import ExprMachine.Proofs.Expr.Reading

namespace ExprMachine

-- ============================================================================
-- Brackets that are awaited
-- ============================================================================

/-- The bracket that closes this one, if it opens parentheses or a list. -/
def Symbol.closing? (symbol : Symbol) : Option Symbol :=
  if symbol = .bracket "(" then some (.bracket ")")
  else if symbol = .bracket "[" then some (.bracket "]")
  else none

/-- Whether the symbol closes parentheses or a list. -/
def Symbol.closes (symbol : Symbol) : Bool :=
  symbol == .bracket ")" || symbol == .bracket "]"

namespace Reading

/-- The closing brackets that are awaited after some symbols, the next one first, if
    these are awaited before; nothing if a bracket closes that is not the next one. -/
def awaited : (stack symbols : List Symbol) → Option (List Symbol)
  | stack, [] => some stack
  | stack, symbol :: rest =>
    match symbol.closing? with
    | some close => awaited (close :: stack) rest
    | none =>
      if symbol.closes then
        if stack.head? = some symbol then awaited stack.tail rest else none
      else awaited stack rest

/-- Whether every bracket of the symbols has its match among them. -/
def Balanced (symbols : List Symbol) : Prop :=
  awaited [] symbols = some []

instance (symbols : List Symbol) : Decidable (Balanced symbols) :=
  inferInstanceAs (Decidable (awaited [] symbols = some []))

/-- Whether the match of an opening bracket is among the symbols after it: the bracket that
    closes it, with balanced symbols before. -/
def HasMatch (opened : Symbol) (after : List Symbol) : Prop :=
  ∃ close inside rest, opened.closing? = some close ∧ after = inside ++ close :: rest ∧
    Balanced inside

variable {stack symbols rest : List Symbol} {symbol close opened : Symbol}

@[simp] theorem awaited_nil : awaited stack [] = some stack := rfl

theorem awaited_of_closing (h : symbol.closing? = some close) :
    awaited stack (symbol :: rest) = awaited (close :: stack) rest := by
  rw [awaited, h]

theorem awaited_of_other (h : symbol.kind ≠ .bracket) :
    awaited stack (symbol :: rest) = awaited stack rest := by
  have other (bracket : String) : symbol ≠ .bracket bracket := fun same => h (by rw [same])
  simp [awaited, Symbol.closing?, Symbol.closes, other]

@[simp] theorem awaited_operator {operator : String} :
    awaited stack (.operator operator :: rest) = awaited stack rest :=
  awaited_of_other nofun

@[simp] theorem awaited_word {name : String} :
    awaited stack (.word name :: rest) = awaited stack rest :=
  awaited_of_other nofun

@[simp] theorem awaited_number {value : String} :
    awaited stack (.number value :: rest) = awaited stack rest :=
  awaited_of_other nofun

@[simp] theorem awaited_parenthesis :
    awaited stack (.bracket "(" :: rest) = awaited (.bracket ")" :: stack) rest :=
  awaited_of_closing rfl

@[simp] theorem awaited_list :
    awaited stack (.bracket "[" :: rest) = awaited (.bracket "]" :: stack) rest :=
  awaited_of_closing rfl

theorem closing?_of_closes (h : symbol.closes = true) : symbol.closing? = none := by
  rw [Symbol.closes, Bool.or_eq_true, beq_iff_eq, beq_iff_eq] at h
  rcases h with rfl | rfl <;> rfl

theorem closes_of_closing (h : symbol.closing? = some close) : close.closes = true := by
  unfold Symbol.closing? at h
  split at h
  · cases h
    rfl
  split at h
  · cases h
    rfl
  · cases h

theorem awaited_of_closes (h : symbol.closes = true) :
    awaited stack (symbol :: rest) =
      if stack.head? = some symbol then awaited stack.tail rest else none := by
  rw [awaited, closing?_of_closes h]
  simp only [h, if_true]

theorem awaited_of_plain (opens : symbol.closing? = none) (closes : ¬ symbol.closes = true) :
    awaited stack (symbol :: rest) = awaited stack rest := by
  rw [awaited, opens]
  simp only [closes]
  rfl

@[simp] theorem awaited_close {kind : SequenceKind} :
    awaited (.bracket kind.close :: stack) (.bracket kind.close :: rest) = awaited stack rest := by
  have closes : (Symbol.bracket kind.close).closes = true := by cases kind <;> rfl
  rw [awaited_of_closes closes, List.head?_cons, if_pos rfl, List.tail_cons]

theorem awaited_append (symbols : List Symbol) :
    awaited stack (symbols ++ rest) = (awaited stack symbols).bind (awaited · rest) := by
  induction symbols generalizing stack with
  | nil => rfl
  | cons symbol symbols ih =>
    rw [List.cons_append, awaited, awaited]
    cases symbol.closing? with
    | some close => exact ih
    | none =>
      dsimp only
      split
      · split
        · exact ih
        · rfl
      · exact ih

/-- A bracket that is awaited below others comes after the symbols that take these away. -/
theorem exists_of_awaited {above : List Symbol}
    (h : awaited (above ++ close :: stack) symbols = some []) :
    ∃ inside rest, symbols = inside ++ close :: rest ∧ awaited above inside = some [] := by
  induction symbols generalizing above with
  | nil => simp [awaited] at h
  | cons symbol symbols ih =>
    cases hclosing : symbol.closing? with
    | some closing =>
      rw [awaited_of_closing hclosing] at h
      obtain ⟨inside, rest, rfl, balanced⟩ := @ih (closing :: above) h
      exact ⟨symbol :: inside, rest, rfl, by rwa [awaited_of_closing hclosing]⟩
    | none =>
      by_cases closes : symbol.closes = true
      · rw [awaited_of_closes closes] at h
        split at h
        · rename_i next
          cases above with
          | nil =>
            obtain rfl : close = symbol := by simpa using next
            exact ⟨[], symbols, rfl, rfl⟩
          | cons top above =>
            obtain rfl : top = symbol := by simpa using next
            obtain ⟨inside, rest, rfl, balanced⟩ := ih h
            refine ⟨top :: inside, rest, rfl, ?_⟩
            rwa [awaited_of_closes closes, List.head?_cons, if_pos rfl, List.tail_cons]
        · cases h
      · rw [awaited_of_plain hclosing closes] at h
        obtain ⟨inside, rest, rfl, balanced⟩ := ih h
        exact ⟨symbol :: inside, rest, rfl, by rwa [awaited_of_plain hclosing closes]⟩

/-- Within balanced symbols every opening bracket has its match. -/
theorem Balanced.hasMatch {before : List Symbol} (h : Balanced (before ++ opened :: rest))
    (opens : opened.closing? = some close) : HasMatch opened rest := by
  rw [Balanced, awaited_append, Option.bind_eq_some_iff] at h
  obtain ⟨stack, -, h⟩ := h
  rw [awaited_of_closing opens] at h
  obtain ⟨inside, after, hrest, balanced⟩ := @exists_of_awaited _ _ _ [] h
  exact ⟨close, inside, after, opens, hrest, balanced⟩

/-- A bracket before balanced symbols has no match among them. -/
theorem Balanced.not_hasMatch (h : Balanced symbols) : ¬HasMatch opened symbols := by
  rintro ⟨close, inside, rest, opens, rfl, inner⟩
  rw [Balanced] at h inner
  rw [awaited_append, inner, Option.bind_some, awaited_of_closes (closes_of_closing opens),
    if_neg (by simp)] at h
  cases h

-- ============================================================================
-- Pairs of parentheses
-- ============================================================================

/-- What is awaited below others does not matter to symbols that take none of it away. -/
theorem awaited_below {above after : List Symbol} (h : awaited above symbols = some after)
    (below : List Symbol) : awaited (above ++ below) symbols = some (after ++ below) := by
  induction symbols generalizing above with
  | nil =>
    obtain rfl : above = after := Option.some.inj h
    rfl
  | cons symbol symbols ih =>
    cases hclosing : symbol.closing? with
    | some closing =>
      rw [awaited_of_closing hclosing] at h ⊢
      exact ih h
    | none =>
      by_cases closes : symbol.closes = true
      · rw [awaited_of_closes closes] at h ⊢
        cases above with
        | nil =>
          rw [if_neg (by simp)] at h
          cases h
        | cons top above =>
          rw [List.head?_cons, List.tail_cons] at h
          rw [List.cons_append, List.head?_cons, List.tail_cons]
          split at h
          · rename_i next
            rw [if_pos next]
            exact ih h
          · cases h
      · rw [awaited_of_plain hclosing closes] at h ⊢
        exact ih h

/-- Balanced symbols leave what is awaited. -/
theorem Balanced.awaited_eq (h : Balanced symbols) (stack : List Symbol) :
    awaited stack symbols = some stack :=
  awaited_below h stack

theorem Balanced.append_iff (h : Balanced symbols) :
    Balanced (symbols ++ rest) ↔ Balanced rest := by
  rw [Balanced, awaited_append, h.awaited_eq, Option.bind_some, Balanced]

theorem Balanced.append (h : Balanced symbols) (hrest : Balanced rest) :
    Balanced (symbols ++ rest) :=
  h.append_iff.2 hrest

/-- Balanced symbols between a bracket and its match. -/
theorem Balanced.between (opens : opened.closing? = some close) (h : Balanced symbols)
    (hrest : Balanced rest) : Balanced (opened :: (symbols ++ close :: rest)) := by
  rw [Balanced, awaited_of_closing opens, awaited_append, h.awaited_eq, Option.bind_some,
    awaited_of_closes (closes_of_closing opens), List.head?_cons, if_pos rfl, List.tail_cons]
  exact hrest

theorem Balanced.parentheses (h : Balanced symbols) :
    Balanced (.bracket "(" :: (symbols ++ [.bracket ")"])) :=
  h.between rfl rfl

/-- A pair of parentheses can be left out of balanced symbols. -/
theorem Balanced.without_pair {before : List Symbol}
    (h : Balanced (before ++ .bracket "(" :: (symbols ++ .bracket ")" :: rest)))
    (inner : Balanced symbols) : Balanced (before ++ (symbols ++ rest)) := by
  rw [Balanced, awaited_append] at h ⊢
  obtain ⟨stack, hstack, h⟩ := Option.bind_eq_some_iff.1 h
  rw [awaited_parenthesis, awaited_append, inner.awaited_eq, Option.bind_some] at h
  rw [hstack, Option.bind_some, awaited_append, inner.awaited_eq, Option.bind_some]
  exact (@awaited_close stack rest .arguments).symm.trans h

/-- The match of a parenthesis is determined. -/
theorem Balanced.match_unique {inside inside' rest' : List Symbol} (closes : close.closes = true)
    (h : inside ++ close :: rest = inside' ++ close :: rest') (hinside : Balanced inside)
    (hinside' : Balanced inside') : inside = inside' ∧ rest = rest' := by
  have stops {inside more : List Symbol} (inner : Balanced inside) :
      ¬ Balanced (inside ++ close :: more) := by
    rw [inner.append_iff, Balanced, awaited_of_closes closes, if_neg (by simp)]
    intro h
    cases h
  rcases List.append_eq_append_iff.1 h with ⟨between, hbetween, hrest⟩ | ⟨between, hbetween, hrest⟩
  · cases between with
    | nil => exact ⟨by simpa using hbetween.symm, (List.cons.inj hrest).2⟩
    | cons symbol between =>
      obtain ⟨rfl, -⟩ := List.cons.inj hrest
      rw [hbetween] at hinside'
      exact absurd hinside' (stops hinside)
  · cases between with
    | nil => exact ⟨by simpa using hbetween, (List.cons.inj hrest).2.symm⟩
    | cons symbol between =>
      obtain ⟨rfl, -⟩ := List.cons.inj hrest
      rw [hbetween] at hinside
      exact absurd hinside (stops hinside')

/-- Balanced symbols in front of others hold a pair of parentheses whole or not at all. -/
theorem Balanced.split_pair {before inside after : List Symbol} (h : Balanced symbols)
    (inner : Balanced inside)
    (same : symbols ++ rest = before ++ .bracket "(" :: (inside ++ .bracket ")" :: after)) :
    (∃ left, symbols = before ++ .bracket "(" :: (inside ++ .bracket ")" :: left) ∧
      after = left ++ rest) ∨
    ∃ left, before = symbols ++ left ∧
      rest = left ++ .bracket "(" :: (inside ++ .bracket ")" :: after) := by
  rcases List.append_eq_append_iff.1 same with ⟨left, hbefore, hrest⟩ | ⟨left, hsymbols, hrest⟩
  · exact .inr ⟨left, hbefore, hrest⟩
  · cases left with
    | nil => exact .inr ⟨[], by simpa using hsymbols.symm, hrest.symm⟩
    | cons symbol left =>
      obtain ⟨rfl, hleft⟩ := List.cons.inj hrest
      rw [hsymbols] at h
      obtain ⟨close, matched, behind, opens, rfl, hmatched⟩ :=
        @Balanced.hasMatch _ _ (.bracket "(") _ h rfl
      cases opens
      replace hleft : inside ++ .bracket ")" :: after =
          matched ++ .bracket ")" :: (behind ++ rest) := by simpa using hleft
      obtain ⟨rfl, rfl⟩ := match_unique (by decide) hleft inner hmatched
      exact .inl ⟨behind, hsymbols, rfl⟩

theorem Balanced.pair_of_not_mem {before inside after : List Symbol} (h : Balanced symbols)
    (inner : Balanced inside)
    (same : symbols ++ rest = before ++ .bracket "(" :: (inside ++ .bracket ")" :: after))
    (none : .bracket "(" ∉ rest) :
    ∃ left, symbols = before ++ .bracket "(" :: (inside ++ .bracket ")" :: left) ∧
      after = left ++ rest := by
  rcases h.split_pair inner same with found | ⟨left, -, rfl⟩
  · exact found
  · exact absurd (List.mem_append_right _ List.mem_cons_self) none

/-- Balanced symbols that start with a parenthesis start with its pair. -/
theorem Balanced.starts_with_pair {inside after : List Symbol} (h : Balanced symbols)
    (nonempty : symbols ≠ []) (inner : Balanced inside)
    (same : symbols ++ rest = .bracket "(" :: (inside ++ .bracket ")" :: after)) :
    ∃ left, symbols = .bracket "(" :: (inside ++ .bracket ")" :: left) ∧ after = left ++ rest := by
  rcases @Balanced.split_pair _ _ [] _ _ h inner same with found | ⟨left, hbefore, -⟩
  · exact found
  · exact absurd (List.append_eq_nil_iff.1 hbefore.symm).1 nonempty

/-- In a pair of parentheses no symbol but the first one stands behind balanced symbols. -/
theorem Balanced.start_of_pair {before inside after : List Symbol} (h : Balanced before)
    (inner : Balanced inside)
    (same : before ++ symbol :: after = .bracket "(" :: (inside ++ [.bracket ")"])) :
    before = [] ∧ symbol = .bracket "(" := by
  by_cases nonempty : before = []
  · subst nonempty
    exact ⟨rfl, (List.cons.inj same).1⟩
  · obtain ⟨left, -, none⟩ := @Balanced.starts_with_pair _ _ _ [] h nonempty inner same
    simp at none

end Reading

open Reading

-- ============================================================================
-- Brackets of what is read
-- ============================================================================

/-- The bracket that ends the phrase, if it has been opened before. -/
def Phrase.awaits : Phrase → List Symbol
  | .sequence kind _ | .items kind _ => [.bracket kind.close]
  | _ => []

/-- A phrase takes away the bracket that it awaits, and no other. -/
theorem Reads.awaited_eq {grammar : Grammar} {phrase : Phrase} {symbols rest : List Symbol}
    (h : Reads grammar phrase symbols rest) (stack : List Symbol) :
    awaited (phrase.awaits ++ stack) symbols = awaited stack rest := by
  induction h generalizing stack with
  | expression _ _ ih => exact ih stack
  | single _ ih => exact ih stack
  | binary _ _ _ _ ihLeft ihRight => exact (ihLeft stack).trans (ihRight stack)
  | literal denotes =>
    refine awaited_of_other fun bracket => ?_
    rw [Symbol.literal?, bracket] at denotes
    cases denotes
  | operand _ _ ih => exact ih stack
  | unary _ _ ih => exact ih stack
  | parentheses _ ih =>
    have closed := ih (.bracket ")" :: stack)
    exact closed.trans (@awaited_close _ _ .arguments)
  | list _ ih => exact ih stack
  | name => exact awaited_word
  | call _ _ ihStem ihSequence => exact (ihStem stack).trans (ihSequence stack)
  | property _ _ ih => exact (ih stack).trans (by simp)
  | method _ _ ihStem ihSequence => exact (ihStem stack).trans (ihSequence stack)
  | indexes _ _ _ ih => exact (ih stack).trans (by simp)
  | empty => exact awaited_close
  | sequence _ ih => exact ih stack
  | @last kind _ _ _ _ _ ih => exact (ih (.bracket kind.close :: stack)).trans awaited_close
  | @item kind _ _ _ _ _ _ _ _ ihItem ihItems =>
    exact (ihItem (.bracket kind.close :: stack)).trans (ihItems stack)

/-- An expression is balanced. -/
theorem Reads.balanced {grammar : Grammar} {least : Nat} {expr : Expr} {symbols : List Symbol}
    (h : Reads grammar (.expression least expr) symbols []) : Balanced symbols :=
  h.awaited_eq []

end ExprMachine
