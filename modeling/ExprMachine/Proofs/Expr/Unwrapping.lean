/-
  ExprMachine.Proofs.Expr.Unwrapping

  Symbols that are read with a pair of parentheses are read without it as the same tree,
  and open no more levels, if what is in the pair can be read alone before what follows.
-/
import ExprMachine.Proofs.Expr.Enclosing
import ExprMachine.Proofs.Expr.Fronts

namespace ExprMachine

open ExprMachine.Expr Reading

variable {grammar : Grammar} {n : Nat} {phrase : Phrase}
  {before inside after front symbols rest : List Symbol}

-- ============================================================================
-- Where a pair stands
-- ============================================================================

/-- A pair that what is left follows does not stand in what is left. -/
theorem not_pair_of_suffix (suffix : rest <:+ after) :
    rest ≠ before ++ .bracket "(" :: (inside ++ .bracket ")" :: after) := by
  rintro rfl
  have := suffix.length_le
  simp only [List.length_append, List.length_cons] at this
  omega

/-- A symbol that is no parenthesis stands in front of the pair. -/
theorem exists_before_of_cons {symbol : Symbol} {more : List Symbol} (other : symbol ≠ .bracket "(")
    (same : symbol :: symbols = before ++ .bracket "(" :: more) :
    ∃ left, before = symbol :: left ∧ symbols = left ++ .bracket "(" :: more := by
  cases before with
  | nil => exact absurd (List.cons.inj same).1 other
  | cons first left =>
    obtain ⟨rfl, hsymbols⟩ := List.cons.inj same
    exact ⟨left, rfl, hsymbols⟩

/-- The pair does not start at a symbol before what is left, unless this is a parenthesis. -/
theorem not_pair_of_cons {symbol : Symbol} (suffix : rest <:+ after)
    (other : symbol ≠ .bracket "(") :
    symbol :: rest ≠ before ++ .bracket "(" :: (inside ++ .bracket ")" :: after) := by
  intro same
  obtain ⟨left, -, hrest⟩ := exists_before_of_cons other same
  exact not_pair_of_suffix suffix hrest

/-- A tree with a path of indexes behind it is a part. -/
theorem Expr.exists_property {path : List String} (nonempty : path ≠ []) (expr : Expr) :
    ∃ receiver name, path.foldl .property expr = .property receiver name := by
  induction path using List.reverseRecOn with
  | nil => exact absurd rfl nonempty
  | append_singleton path last => exact ⟨_, last, by rw [List.foldl_append]; rfl⟩

/-- A parenthesis behind a name that can be called does not open an operand. -/
theorem Nests.not_opensOperand {name : String}
    (h : Nests grammar n (.stem (.identifier name)) symbols rest)
    (whole : symbols = front ++ rest) : ¬ OpensOperand front := by
  generalize hexpr : Expr.identifier name = expr at h
  cases h with
  | @name other _ plain =>
    obtain rfl : [.word other] = front := List.append_cancel_right whole
    intro opens
    exact absurd opens (by simp [OpensOperand, Symbol.precedesOperand])
  | parentheses inner =>
    obtain ⟨others, rfl, -⟩ := inner.exists_front
    obtain rfl : .bracket "(" :: (others ++ [.bracket ")"]) = front := by
      rwa [List.append_cons, ← List.cons_append, List.append_cancel_right_eq] at whole
    intro opens
    have last : OpensOperand [.bracket ")"] := opens.of_cons.of_append
    exact absurd last (by decide)
  | indexes _ _ denotes =>
    obtain ⟨receiver, name, same⟩ := exists_property (ne_nil_of_indexPath denotes) _
    cases hexpr.trans same
  | _ => cases hexpr

-- ============================================================================
-- Without the pair
-- ============================================================================

/-- What stands in parentheses is read alike without them, before what follows them. -/
def Unwraps (grammar : Grammar) (inside after : List Symbol) : Prop :=
  ∀ {n expr}, Nests grammar n (.expression 0 expr) (inside ++ .bracket ")" :: after)
    (.bracket ")" :: after) → ∃ m ≤ n, Nests grammar m (.stem expr) (inside ++ after) after

/-- The pair stands in front of the symbol that follows a tree, or behind this symbol. Then
    the tree is read alike before other symbols behind it. -/
theorem Nests.split_pair (withoutPoint : grammar.WithoutPoint) (balanced : Balanced inside)
    {symbol : Symbol} (h : Nests grammar n phrase symbols (symbol :: rest))
    (tree : phrase.awaits = [])
    (same : symbols = before ++ .bracket "(" :: (inside ++ .bracket ")" :: after))
    (opens : OpensOperand before)
    (apart : symbol = .bracket "(" → ∀ front, symbols = front ++ symbol :: rest →
      ¬ OpensOperand front) :
    symbol :: rest <:+ after ∨ ∃ front left, before = front ++ symbol :: left ∧
      rest = left ++ .bracket "(" :: (inside ++ .bracket ")" :: after) ∧
        ∀ others, Nests grammar n phrase (front ++ symbol :: others) (symbol :: others) := by
  obtain ⟨front, rfl, again⟩ := h.exists_front
  rcases (h.reads.balanced_front withoutPoint tree).split_pair balanced same with
    ⟨left, -, hafter⟩ | ⟨left, rfl, hrest⟩
  · exact .inl ⟨left, hafter.symm⟩
  cases left with
  | nil =>
    rw [List.append_nil] at opens
    exact absurd opens (apart (List.cons.inj hrest).1 front rfl)
  | cons first left =>
    obtain ⟨rfl, hleft⟩ := List.cons.inj hrest
    exact .inr ⟨front, left, rfl, hleft, fun others => again _ (.inl rfl)⟩

/-- The phrase is read without the pair, and it opens no more levels. -/
theorem Nests.without (withoutPoint : grammar.WithoutPoint) (separates : grammar.separates = true)
    (balanced : Balanced inside) (unwraps : Unwraps grammar inside after)
    (h : Nests grammar n phrase symbols rest)
    (same : symbols = before ++ .bracket "(" :: (inside ++ .bracket ")" :: after))
    (opens : OpensOperand before) (suffix : rest <:+ after) :
    ∃ m ≤ n, Nests grammar m phrase (before ++ (inside ++ after)) rest := by
  induction h generalizing before with
  | expression _ done ih =>
    obtain ⟨m, le, nests⟩ := ih same opens suffix
    exact ⟨m + 1, by omega, .expression nests done⟩
  | single _ ih =>
    obtain ⟨m, le, nests⟩ := ih same opens suffix
    exact ⟨m, le, .single nests⟩
  | @binary m n _ _ _ _ _ _ _ _ chain known binds right ihLeft ihRight =>
    rcases chain.split_pair withoutPoint balanced rfl same opens (by simp) with
      behind | ⟨front, left, rfl, hbetween, again⟩
    · obtain ⟨k, le, nests⟩ := ihLeft same opens behind
      exact ⟨max k n, by omega, .binary nests known binds right⟩
    · obtain ⟨k, le, nests⟩ := ihRight hbetween opens.of_append.of_cons suffix
      rw [List.append_assoc, List.cons_append]
      exact ⟨max m k, by omega, .binary (again _) known binds nests⟩
  | literal denotes =>
    refine absurd same (not_pair_of_cons suffix ?_)
    rintro rfl
    cases denotes
  | operand _ done ih =>
    obtain ⟨m, le, nests⟩ := ih same opens suffix
    exact ⟨m, le, .operand nests done⟩
  | unary known _ ih =>
    obtain ⟨before, rfl, hsymbols⟩ := exists_before_of_cons (by simp) same
    obtain ⟨m, le, nests⟩ := ih hsymbols opens.of_cons suffix
    exact ⟨m, le, .unary known nests⟩
  | parentheses inner ih =>
    cases before with
    | nil =>
      obtain ⟨-, rfl⟩ := List.cons.inj same
      obtain ⟨front, hfront, -⟩ := inner.exists_front
      have matched : Balanced front :=
        Reads.balanced_front withoutPoint (hfront ▸ inner.reads) rfl
      obtain ⟨rfl, rfl⟩ := balanced.match_unique (by decide) hfront matched
      exact unwraps inner
    | cons first before =>
      obtain ⟨rfl, hsymbols⟩ := List.cons.inj same
      rcases inner.split_pair withoutPoint balanced rfl hsymbols opens.of_cons (by simp) with
        behind | ⟨front, left, -, hrest, -⟩
      · obtain ⟨m, le, nests⟩ := ih hsymbols opens.of_cons behind
        exact ⟨m, le, .parentheses nests⟩
      · exact absurd hrest (not_pair_of_suffix suffix)
  | list _ ih =>
    obtain ⟨before, rfl, hsymbols⟩ := exists_before_of_cons (by simp) same
    obtain ⟨m, le, nests⟩ := ih hsymbols opens.of_cons suffix
    exact ⟨m, le, .list nests⟩
  | name => exact absurd same (not_pair_of_cons suffix (by simp))
  | @call m n _ _ _ _ _ stem sequence ihStem ihSequence =>
    rcases stem.split_pair withoutPoint balanced rfl same opens
      fun _ _ => stem.not_opensOperand with
      behind | ⟨front, left, rfl, hbetween, again⟩
    · obtain ⟨k, le, nests⟩ := ihStem same opens behind
      exact ⟨max k n, by omega, .call nests sequence⟩
    · obtain ⟨k, le, nests⟩ := ihSequence hbetween opens.of_append.of_cons suffix
      rw [List.append_assoc, List.cons_append]
      exact ⟨max m k, by omega, .call (again _) nests⟩
  | property stem done ih =>
    rcases stem.split_pair withoutPoint balanced rfl same opens (by simp) with
      behind | ⟨front, left, -, hrest, -⟩
    · obtain ⟨m, le, nests⟩ := ih same opens behind
      exact ⟨m, le, .property nests done⟩
    · exact absurd hrest (not_pair_of_cons suffix (by simp))
  | @method m n _ _ _ _ _ _ stem sequence ihStem ihSequence =>
    rcases stem.split_pair withoutPoint balanced rfl same opens (by simp) with
      behind | ⟨front, left, rfl, hname, again⟩
    · obtain ⟨k, le, nests⟩ := ihStem same opens behind
      exact ⟨max k n, by omega, .method nests sequence⟩
    · obtain ⟨left, rfl, hopened⟩ := exists_before_of_cons (by simp) hname
      cases left with
      | nil =>
        -- A parenthesis behind the name of the method opens its arguments.
        have behindName : OpensOperand [.operator ".", .word _] := opens.of_append
        exact absurd behindName (by simp [OpensOperand, Symbol.precedesOperand])
      | cons first left =>
        obtain ⟨rfl, hbetween⟩ := List.cons.inj hopened
        obtain ⟨k, le, nests⟩ := ihSequence hbetween opens.of_append.of_cons.of_cons.of_cons suffix
        rw [List.append_assoc]
        exact ⟨max m k, by omega, .method (again _) nests⟩
  | indexes stem point denotes ih =>
    rcases stem.split_pair withoutPoint balanced rfl same opens (by simp) with
      behind | ⟨front, left, -, hrest, -⟩
    · obtain ⟨m, le, nests⟩ := ih same opens behind
      exact ⟨m, le, .indexes nests point denotes⟩
    · exact absurd hrest (not_pair_of_suffix suffix)
  | @empty kind _ => exact absurd same (not_pair_of_cons suffix (by cases kind <;> decide))
  | sequence _ ih =>
    obtain ⟨m, le, nests⟩ := ih same opens suffix
    exact ⟨m, le, .sequence nests⟩
  | @last _ kind _ _ _ _ inner ih =>
    rcases inner.split_pair withoutPoint balanced rfl same opens
      (fun close => absurd close (by cases kind <;> decide)) with
      behind | ⟨front, left, -, hrest, -⟩
    · obtain ⟨m, le, nests⟩ := ih same opens behind
      exact ⟨m, le, .last (Reread.head_ne_comma separates nests) nests⟩
    · exact absurd hrest (not_pair_of_suffix suffix)
  | @item m n _ _ _ _ _ _ _ inner items ihItem ihItems =>
    rcases inner.split_pair withoutPoint balanced rfl same opens (by simp) with
      behind | ⟨front, left, rfl, hbetween, again⟩
    · obtain ⟨k, le, nests⟩ := ihItem same opens behind
      exact ⟨max k n, by omega, .item (Reread.head_ne_comma separates nests) nests items⟩
    · obtain ⟨k, le, nests⟩ := ihItems hbetween opens.of_append.of_cons suffix
      have first := again (left ++ (inside ++ after))
      rw [List.append_assoc, List.cons_append]
      exact ⟨max m k, by omega, .item (Reread.head_ne_comma separates first) first nests⟩

end ExprMachine
