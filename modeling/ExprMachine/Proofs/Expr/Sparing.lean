/-
  ExprMachine.Proofs.Expr.Sparing

  A spare pair of parentheses can be left out: the prefix operator in it is read alike
  before what follows the pair.
-/
import ExprMachine.Proofs.Expr.Reread
import ExprMachine.Proofs.Expr.Spare
import ExprMachine.Proofs.Expr.Unwrapping

namespace ExprMachine

open ExprMachine.Expr Reading

variable {grammar : Grammar} {keywords : List String} {n least : Nat} {expr operand : Expr}
  {symbol : String} {front symbols rest after : List Symbol}

-- ============================================================================
-- Properties that parts share
-- ============================================================================

theorem Expr.allFaithful_iff {exprs : List Expr} :
    allFaithful grammar exprs = true ↔ ∀ expr ∈ exprs, faithful grammar expr = true := by
  induction exprs with
  | nil => simp [allFaithful]
  | cons expr exprs ih => simp [allFaithful, ih]

theorem Expr.faithful_hereditary : Hereditary (faithful grammar · = true) where
  unary h := h
  binary h := by
    simp only [faithful, Bool.and_eq_true] at h
    exact ⟨h.1.2, h.2⟩
  property h := h
  methodCall h := by
    simp only [faithful, Bool.and_eq_true] at h
    exact ⟨h.1, allFaithful_iff.1 h.2⟩
  call h := allFaithful_iff.1 h
  list h := allFaithful_iff.1 h

theorem Expr.depth_le_depthAll {exprs : List Expr} {expr : Expr} (h : expr ∈ exprs) :
    expr.depth ≤ depthAll exprs := by
  induction exprs with
  | nil => cases h
  | cons first exprs ih =>
    rw [depthAll]
    rcases List.mem_cons.1 h with rfl | h
    · omega
    · have := ih h
      omega

theorem Expr.shallow_hereditary (limit : Nat) : Hereditary (·.depth ≤ limit) where
  unary h := by
    rw [depth] at h
    omega
  binary h := by
    rw [depth] at h
    omega
  property h := by
    rw [depth] at h
    omega
  methodCall h := by
    rw [depth] at h
    refine ⟨by omega, fun argument mem => ?_⟩
    have := depth_le_depthAll mem
    omega
  call h argument mem := by
    rw [depth] at h
    have := depth_le_depthAll mem
    omega
  list h item mem := by
    rw [depth] at h
    have := depth_le_depthAll mem
    omega

-- ============================================================================
-- Operands before a part
-- ============================================================================

/-- No infix operator stands where a part starts. -/
theorem opensInfix_of_access (withoutPoint : grammar.WithoutPoint)
    (access : opensAccess after = true) : opensInfix grammar least after = false := by
  rw [opensAccess, Bool.or_eq_true, beq_iff_eq] at access
  cases after with
  | nil => rfl
  | cons symbol after =>
    rw [opensInfix, List.head?_cons, Option.any_some]
    rcases access with point | index
    · obtain rfl := Option.some.inj point
      simp [withoutPoint.2]
    · obtain ⟨kind, value⟩ := symbol
      cases kind with
      | number => rfl
      | _ => simp [Symbol.isIndexes] at index

/-- A literal or an infix operator that a part could follow stands in parentheses. -/
theorem Nests.stem_closes (h : Nests grammar n (.stem expr) (front ++ rest) rest)
    (last : (lastLiteral? grammar expr).isSome = true) :
    front.getLast? = some (.bracket ")") := by
  generalize hwhole : front ++ rest = symbols at h
  generalize hexpr : expr = tree at h
  cases h with
  | parentheses inner =>
    obtain ⟨others, rfl, -⟩ := inner.exists_front
    obtain rfl : front = .bracket "(" :: (others ++ [.bracket ")"]) := by
      rwa [List.append_cons, ← List.cons_append, List.append_cancel_right_eq] at hwhole
    rw [← List.cons_append, List.getLast?_concat]
  | indexes _ _ denotes =>
    obtain ⟨receiver, name, same⟩ := exists_property (ne_nil_of_indexPath denotes) _
    rw [hexpr, same] at last
    cases last
  | _ =>
    subst hexpr
    cases last

/-- A chain that ends in a literal is read alike before a part. -/
theorem Nests.before_access (withoutPoint : grammar.WithoutPoint)
    (h : Nests grammar n (.chain least expr) (front ++ rest) rest)
    (last : (lastLiteral? grammar expr).isSome = true)
    (bare : front.getLast? ≠ some (.bracket ")")) (access : opensAccess after = true) :
    Nests grammar n (.chain least expr) (front ++ after) after := by
  induction expr using lastLiteral?.induct grammar generalizing n least front with
  | case1 symbol left right wraps =>
    rw [lastLiteral?, if_pos wraps] at last
    cases last
  | case2 symbol left right bareRight ih =>
    have lastRight := last
    rw [lastLiteral?, if_neg bareRight] at lastRight
    generalize hwhole : front ++ rest = symbols at h
    cases h with
    | single operand =>
      cases operand with
      | literal denotes => cases isLiteral_of_literal? denotes
      | operand stem =>
        rw [← hwhole] at stem
        exact absurd (stem.stem_closes last) bare
    | binary chain known binds expression =>
      cases expression with
      | expression inner done =>
        obtain ⟨first, rfl, again⟩ := chain.exists_front
        obtain ⟨second, rfl, -⟩ := inner.exists_front
        obtain rfl : front = first ++ .operator symbol :: second := by
          rwa [← List.cons_append, ← List.append_assoc, List.append_cancel_right_eq] at hwhole
        have bareSecond : second.getLast? ≠ some (.bracket ")") := by
          intro closed
          apply bare
          rw [List.getLast?_append, List.getLast?_cons, closed]
          rfl
        have right := ih inner lastRight bareSecond
        rw [List.append_assoc, List.cons_append]
        exact .binary (again _ (.inl rfl)) known binds
          (.expression right (opensInfix_of_access withoutPoint access))
  | case3 expr notBinary literal =>
    generalize hwhole : front ++ rest = symbols at h
    cases h with
    | single operand =>
      cases operand with
      | literal denotes =>
        obtain rfl : front = [_] := by
          rwa [← List.singleton_append, List.append_cancel_right_eq] at hwhole
        exact .single (.literal denotes)
      | operand stem =>
        rw [← hwhole] at stem
        exact absurd (stem.stem_closes last) bare
    | binary => exact absurd rfl (notBinary _ _ _)
  | case4 expr notBinary notLiteral =>
    rw [lastLiteral?, if_neg notLiteral] at last
    · cases last
    · exact notBinary

/-- A printed tree that ends in a literal does not end in parentheses. -/
theorem Expr.getLast?_spell (h : Spellable grammar keywords expr)
    (last : (lastLiteral? grammar expr).isSome = true) :
    (spell grammar expr []).getLast? ≠ some (.bracket ")") := by
  induction h with
  | @binary symbol left right _ _ _ _ _ ih =>
    rw [lastLiteral?] at last
    split at last
    · cases last
    · rename_i bare
      rw [Bool.not_eq_true] at bare
      have second := ih last
      simp only [spell, indexSymbols, List.append_nil, bare, wrap]
      intro closed
      rw [List.getLast?_append, List.getLast?_cons] at closed
      apply second
      cases hlast : (spell grammar right []).getLast? with
      | none => simp [hlast] at closed
      | some symbol => simpa [hlast] using closed
  | float =>
    simp only [spell, indexSymbols, floatSymbol]
    split <;> simp
  | bool | nil | int | text => simp [spell, indexSymbols]
  | _ => cases last

-- ============================================================================
-- Spare pairs
-- ============================================================================

/-- A prefix operator is read as an operand. -/
theorem Nests.stem_of_chain
    (h : Nests grammar n (.chain least (.unary symbol operand)) symbols rest) :
    Nests grammar n (.stem (.unary symbol operand)) symbols rest := by
  cases h with
  | single single =>
    cases single with
    | literal denotes => cases isLiteral_of_literal? denotes
    | operand stem => exact stem

/-- A prefix operator without parentheses, and its operand. -/
theorem Nests.of_unary
    (h : Nests grammar n (.stem (.unary symbol operand)) (.operator symbol :: symbols) rest) :
    ∃ info, grammar.unary? symbol = some info ∧
      Nests grammar n (.expression info.priority operand) symbols rest := by
  generalize hexpr : Expr.unary symbol operand = tree at h
  cases h with
  | unary known expression =>
    obtain ⟨-, rfl⟩ := Expr.unary.inj hexpr
    exact ⟨_, known, expression⟩
  | indexes _ _ denotes =>
    obtain ⟨receiver, name, same⟩ := exists_property (ne_nil_of_indexPath denotes) _
    cases hexpr.trans same
  | _ => cases hexpr

/-- What a spare pair is around is read without the pair, and opens no more levels. -/
theorem Expr.Spare.unwraps {inner : Expr} (spare : Spare grammar inner after)
    (consistent : grammar.Consistent) (withoutPoint : grammar.WithoutPoint)
    (h : Spellable grammar keywords inner) (faithful : faithful grammar inner = true)
    (shallow : inner.depth ≤ maxDepth) (apart : opensArguments after = false) :
    Unwraps grammar (spell grammar inner []) after := by
  intro n expr written
  obtain ⟨reread, items, hreread⟩ := exists_reread consistent h
  obtain rfl := hreread.same.2 faithful
  obtain ⟨m, whole, hm⟩ :=
    hreread.whole (.bracket ")" :: after) (@Ends.close grammar .arguments after)
  obtain ⟨rfl, -, counts⟩ := written.unique whole shallow
  have count := hm faithful
  obtain @⟨symbol, operand, _, yields, leaves⟩ := spare
  cases access : opensAccess after with
  | false =>
    -- Nothing of what follows belongs to the operand.
    have noPart : startsPart after = false := by
      rw [startsPart, opensPart, ← opensAccess, access, apart]
      rfl
    obtain ⟨exactly, grouped⟩ := hreread.exactly.1 faithful
    have chain : Nests grammar (levels grammar (.unary symbol operand))
        (.chain 0 (.unary symbol operand)) (Item.spelling items ++ after) after :=
      hreread.layout.nests consistent exactly hreread.counted grouped (fun h => by cases h)
        (fun _ _ _ _ _ same _ => by cases same) (fun _ => yields) noPart
    rw [hreread.spelling] at chain
    exact ⟨_, by omega, chain.stem_of_chain⟩
  | true =>
    -- The operand ends in a literal, which takes no part.
    obtain ⟨bare, last⟩ := leaves access
    have spelling : spell grammar (.unary symbol operand) [] =
        .operator symbol :: spell grammar operand [] := by
      simp [spell, bare, wrap, indexSymbols]
    rw [spelling] at written ⊢
    cases written with
    | expression chain _ =>
      obtain ⟨info, known, expression⟩ := chain.stem_of_chain.of_unary
      cases expression with
      | expression inner _ =>
        have operand := inner.before_access withoutPoint last
          (getLast?_spell (Spellable.hereditary.unary h) last) access
        exact ⟨_, Nat.le_succ _,
          .unary known (.expression operand (opensInfix_of_access withoutPoint access))⟩

/-- Without a spare pair the symbols of a printed tree are read as the same tree, and they open
    no more levels. -/
theorem Nests.without_spare {before : List Symbol} {inner : Expr}
    (encloses : Encloses grammar (.bare expr []) before inner after)
    (spare : Spare grammar inner after) (consistent : grammar.Consistent)
    (withoutPoint : grammar.WithoutPoint) (separates : grammar.separates = true)
    (h : Spellable grammar keywords expr) (faithful : faithful grammar expr = true)
    (shallow : expr.depth ≤ maxDepth) (opens : OpensOperand before)
    (nests : Nests grammar n (.expression 0 expr) (spell grammar expr []) []) :
    ∃ m ≤ n, Nests grammar m (.expression 0 expr)
      (before ++ (spell grammar inner [] ++ after)) [] := by
  have unwraps : Unwraps grammar (spell grammar inner []) after :=
    spare.unwraps consistent withoutPoint (encloses.hereditary Spellable.hereditary h)
      (encloses.hereditary faithful_hereditary faithful)
      (encloses.hereditary (shallow_hereditary maxDepth) shallow) encloses.opensArguments_eq_false
  exact nests.without withoutPoint separates (balanced_spell inner []) unwraps
    encloses.symbols_eq opens (List.nil_suffix)

end ExprMachine
