/-
  ExprMachine.Proofs.Expr.Unpaired

  The text of a printed tree without one of its pairs of parentheses. It is scanned to the
  symbols that are left, but for an integer that takes an index behind it for its fraction.
-/
import ExprMachine.Proofs.Expr.Joining
import ExprMachine.Proofs.Expr.Spare
import ExprMachine.Proofs.Token.Cuts

namespace ExprMachine

open ExprMachine.Expr Lexeme Reading

variable {grammar : Grammar} {spacing : Spacing} {stretch : Stretch}
  {before after : List Symbol} {inner : Expr}

-- ============================================================================
-- Where a pair stands in the text
-- ============================================================================

namespace Stretch

/-- The text of the stretch. -/
def text (grammar : Grammar) (spacing : Spacing) : Stretch → List Char
  | .bare expr indexes => (render grammar spacing expr).toList ++ indexChars indexes
  | .operand wrapped expr => (parenthesise wrapped (render grammar spacing expr)).toList
  | .sequence exprs =>
    ((separator spacing).intercalate (renderAll grammar spacing exprs)).toList

/-- Whether the stretch ends in a parenthesis of its own. -/
def closed : Stretch → Bool
  | .operand wrapped _ => wrapped
  | _ => false

/-- Where the text of the stretch has the pair around the inner tree: what stands before it
    leads to an operand, and what stands after it could follow the operand. A path of indexes
    may stand behind a stretch that ends in a parenthesis. -/
def Splits (grammar : Grammar) (spacing : Spacing) (before : List Symbol) (inner : Expr)
    (after : List Symbol) (stretch : Stretch) : Prop :=
  ∃ front back, stretch.text grammar spacing =
      front ++ '(' :: ((render grammar spacing inner).toList ++ ')' :: back) ∧
    Leads Token.standardKeywords front before ∧
    ∀ path, (path = [] ∨ stretch.closed = true) → (∀ index ∈ path, IsIndex index) →
      Behind Token.standardKeywords (back ++ indexChars path) (after ++ indexSymbols path)

/-- The text of a stretch completes no operator before it. -/
theorem endsOperator_text (h : stretch.Valid grammar Token.standardKeywords) :
    endsOperator (stretch.text grammar spacing) = true := by
  cases stretch with
  | bare => exact ((opens_render h.1).append _).2
  | operand wrapped => exact ((opens_render h).parenthesise wrapped).2
  | sequence exprs =>
    cases exprs with
    | nil => rfl
    | cons expr exprs =>
      have opens : Opens (render grammar spacing expr).toList := opens_render (h expr (by simp))
      cases exprs with
      | nil => simpa [text, renderAll] using opens.2
      | cons second exprs =>
        simpa [text, renderAll, String.intercalate_cons_cons] using (opens.append _).2

/-- What is within a longer stretch, between text that leads to it and text that follows it. -/
theorem Splits.within {outer : Stretch} {lead tail : List Char}
    {first second before' after' : List Symbol}
    (h : stretch.Splits grammar spacing before inner after)
    (spells : stretch.Valid grammar Token.standardKeywords)
    (leads : Leads Token.standardKeywords lead first)
    (follows : Follows Token.standardKeywords tail second)
    (same : outer.text grammar spacing = lead ++ (stretch.text grammar spacing ++ tail))
    (plain : outer.closed = false) (hbefore : before' = first ++ before)
    (hafter : after' = after ++ second) :
    outer.Splits grammar spacing before' inner after' := by
  obtain ⟨front, back, text, hfront, behind⟩ := h
  subst hbefore hafter
  have apart := @endsOperator_text grammar spacing stretch spells
  rw [text] at apart
  refine ⟨lead ++ front, back ++ tail, by simp [same, text],
    leads.append hfront (endsOperator_of_before apart), fun path closed _ => ?_⟩
  obtain rfl := closed.resolve_right (by simp [plain])
  have bare := behind [] (.inl rfl) (by simp)
  simp only [indexChars, indexSymbols, List.flatMap_nil, List.append_nil] at bare ⊢
  exact bare.append follows

/-- The same text with the same pair. -/
theorem Splits.of_text_eq {outer : Stretch} (h : stretch.Splits grammar spacing before inner after)
    (same : outer.text grammar spacing = stretch.text grammar spacing)
    (plain : outer.closed = false) : outer.Splits grammar spacing before inner after := by
  obtain ⟨front, back, text, hfront, behind⟩ := h
  refine ⟨front, back, same.trans text, hfront, fun path closed isIndex => ?_⟩
  exact behind path (.inl (closed.resolve_right (by simp [plain]))) isIndex

/-- What is within parentheses, which may have a path of indexes behind them. -/
theorem Splits.paired {expr : Expr}
    (h : (Stretch.bare expr []).Splits grammar spacing before inner after) :
    (Stretch.operand true expr).Splits grammar spacing (.bracket "(" :: before) inner
      (after ++ [.bracket ")"]) := by
  obtain ⟨front, back, same, hfront, behind⟩ := h
  have bare := behind [] (.inl rfl) (by simp)
  simp only [indexChars, indexSymbols, List.flatMap_nil, List.append_nil] at bare
  refine ⟨'(' :: front, back ++ [')'], ?_, ?_, fun path _ isIndex => ?_⟩
  · have : (render grammar spacing expr).toList =
        front ++ '(' :: ((render grammar spacing inner).toList ++ ')' :: back) := by
      simpa [text, indexChars] using same
    simp [text, parenthesise, this]
  · intro rest more ends scans
    exact .token (.bracket (by decide)) (hfront rest more ends scans)
  · rw [List.append_assoc, List.append_assoc]
    exact bare.append (.bracket (by decide) (Spells.indexes (isNumeral_of_indexes isIndex)))

/-- A path of indexes behind parentheses. -/
theorem Splits.indexed {receiver : Expr} {name : String} {indexes : List String}
    (h : (Stretch.operand true receiver).Splits grammar spacing before inner after)
    (isIndex : ∀ index ∈ name :: indexes, IsIndex index) (plain : takesParts receiver = false) :
    (Stretch.bare (.property receiver name) indexes).Splits grammar spacing before inner
      (after ++ indexSymbols (name :: indexes)) := by
  obtain ⟨front, back, same, hfront, behind⟩ := h
  refine ⟨front, back ++ indexChars (name :: indexes), ?_, hfront, fun path closed _ => ?_⟩
  · rw [text] at same
    simp [text, render, plain, same, indexChars]
  · obtain rfl := closed.resolve_right (by simp [Stretch.closed])
    simpa [indexChars, indexSymbols] using behind _ (.inr rfl) isIndex

end Stretch

-- ============================================================================
-- Whole trees
-- ============================================================================

open Stretch in
/-- The pair around the inner tree stands in the text as it stands among the symbols. -/
theorem Encloses.splits (h : Encloses grammar stretch before inner after)
    (valid : stretch.Valid grammar Token.standardKeywords) :
    stretch.Splits grammar spacing before inner after := by
  have rendered {expr : Expr} (h : Spellable grammar Token.standardKeywords expr) :
      Rendered grammar spacing expr := rendered_of_spellable h
  have spells {expr : Expr} (wrapped : Bool) (h : Spellable grammar Token.standardKeywords expr) :
      Spells Token.standardKeywords (parenthesise wrapped (render grammar spacing expr)).toList
        (wrap wrapped (spell grammar expr [])) :=
    (rendered h).spells.wrap wrapped
  have closing {path : List String} (isIndex : ∀ index ∈ path, IsIndex index) :
      Follows Token.standardKeywords (')' :: indexChars path)
        (.bracket ")" :: indexSymbols path) :=
    .bracket (by decide) (Spells.indexes (isNumeral_of_indexes isIndex))
  induction h with
  | here =>
    exact ⟨[], [], by simp [Stretch.text, parenthesise], .nil, fun path _ isIndex => .path isIndex⟩
  | paired inside ih => exact (ih ⟨valid, by simp⟩).paired
  | alone inside ih =>
    exact (ih ⟨valid, by simp⟩).of_text_eq (by simp [Stretch.text, parenthesise, indexChars]) rfl
  | unary inside ih =>
    obtain ⟨whole, -⟩ := valid
    cases whole with
    | unary _ shape _ operand =>
      exact (ih operand).within operand (.unary shape) .nil
        (by simp [Stretch.text, toList_render_unary, indexChars]) rfl rfl (by simp)
  | left inside ih =>
    obtain ⟨whole, -⟩ := valid
    cases whole with
    | binary _ shape first second =>
      exact (ih first).within first .nil
        (.binary shape spacing (spells _ second) ((opens_render second).parenthesise _))
        (by simp [Stretch.text, toList_render_binary, indexChars]) rfl rfl rfl
  | @right symbol left _ _ _ _ _ ih =>
    obtain ⟨whole, -⟩ := valid
    cases whole with
    | binary _ shape first second =>
      have firstSpells := spells (wrapsBeside grammar (binaryPriority grammar symbol)
        (groupsRight grammar symbol) left) first
      exact (ih second).within second (.behind firstSpells (.binary shape spacing)
        (endsWord_operatorChars shape spacing)) .nil
        (by simp [Stretch.text, toList_render_binary, indexChars]) rfl (by simp) (by simp)
  | word notIndex _ ih =>
    obtain ⟨whole, path⟩ := valid
    cases whole with
    | property owner part =>
      have word := part.resolve_right fun index => by
        rw [isIndexName_of_isIndex index] at notIndex
        cases notIndex
      exact (ih owner).within owner .nil (.point word (.word_indexes word path))
        (by simp [Stretch.text, render]) rfl rfl rfl
  | index index takes _ ih =>
    obtain ⟨whole, path⟩ := valid
    have isIndex := whole.isIndex index
    cases whole with
    | property owner =>
      exact (ih ⟨owner, List.forall_mem_cons.2 ⟨isIndex, path⟩⟩).of_text_eq
        (by simp [Stretch.text, render, takes, parenthesise, indexChars]) rfl
  | indexed index plain _ ih =>
    obtain ⟨whole, path⟩ := valid
    have isIndex := whole.isIndex index
    cases whole with
    | property owner => exact (ih owner).indexed (List.forall_mem_cons.2 ⟨isIndex, path⟩) plain
  | owner inside ih =>
    obtain ⟨whole, path⟩ := valid
    cases whole with
    | methodCall _ owner word each =>
      have tail := (Spells.word word).append (.brackets '(' ')' (by decide) (by decide)
        (Rendered.sequence fun argument mem => rendered (each argument mem)) path)
        (fun rest => endsWord_cons (by decide) (by decide))
      exact (ih owner).within owner .nil (.point word tail) (by simp [Stretch.text, render]) rfl
        rfl rfl
  | @argument receiver _ _ _ _ _ _ _ ih =>
    obtain ⟨whole, path⟩ := valid
    cases whole with
    | methodCall _ owner word each =>
      exact (ih each).within each (.behind (spells (!takesParts receiver) owner) (.method word)
        (fun rest => by simpa using endsWord_point word _)) (closing path)
        (by simp [Stretch.text, render]) rfl (by simp) rfl
  | call _ ih =>
    obtain ⟨whole, path⟩ := valid
    cases whole with
    | call _ word each =>
      exact (ih each).within each (.call word.1) (closing path)
        (by simp [Stretch.text, render]) rfl rfl rfl
  | list _ ih =>
    obtain ⟨whole, path⟩ := valid
    cases whole with
    | list _ each =>
      exact (ih each).within each (.bracket (by decide))
        (.bracket (by decide) (Spells.indexes (isNumeral_of_indexes path)))
        (by simp [Stretch.text, render]) rfl rfl rfl
  | only _ ih =>
    exact (ih ⟨valid _ (by simp), by simp⟩).of_text_eq
      (by simp [Stretch.text, renderAll, indexChars]) rfl
  | first inside ih =>
    obtain ⟨first, others⟩ := List.forall_mem_cons.1 valid
    exact (ih ⟨first, by simp⟩).within ⟨first, by simp⟩ .nil
      (.separator spacing (Rendered.sequence fun expr mem => rendered (others expr mem)))
      (by simp [Stretch.text, renderAll, indexChars, String.intercalate_cons_cons]) rfl rfl rfl
  | later _ ih =>
    obtain ⟨first, others⟩ := List.forall_mem_cons.1 valid
    exact (ih others).within others (.behind (rendered first).spells (.separator spacing)
      (endsWord_separator spacing)) .nil
      (by simp [Stretch.text, renderAll, String.intercalate_cons_cons]) rfl (by simp) (by simp)

-- ============================================================================
-- Spare pairs
-- ============================================================================

theorem opensAccess_indexSymbols {indexes : List String} (nonempty : indexes ≠ [])
    (rest : List Symbol) : opensAccess (indexSymbols indexes ++ rest) = true := by
  cases indexes using indexSymbols.induct with
  | case1 => exact absurd rfl nonempty
  | case2 | case3 => simp [indexSymbols, opensAccess, Symbol.isIndexes]

namespace MeetsPath

variable {expr : Expr} {path : List String} {others : List Symbol}

/-- Nothing behind a printed tree. -/
theorem nil {related : List Symbol → List Symbol → Prop}
    (h : Spellable grammar Token.standardKeywords expr)
    (refl : ∀ symbols, related symbols symbols) :
    MeetsPath related [] (render grammar spacing expr).toList (spell grammar expr []) := by
  have printed : Rendered grammar spacing expr := rendered_of_spellable h
  refine ⟨spell grammar expr [], ?_, ?_⟩
  · simpa [indexChars] using printed.spells
  · rw [indexSymbols, List.append_nil]
    exact refl _

/-- A path of indexes behind a printed tree that ends in a literal. -/
theorem of_lastLiteral? (h : Spellable grammar Token.standardKeywords expr)
    (isIndex : ∀ index ∈ path, IsIndex index) (last : (lastLiteral? grammar expr).isSome = true)
    (noInt : endsInInt grammar expr = false) :
    MeetsPath (· = ·) path (render grammar spacing expr).toList (spell grammar expr []) := by
  induction h with
  | @binary symbol left right _ shape first second _ ih =>
    rw [lastLiteral?] at last
    split at last
    · cases last
    · rename_i bare
      rw [Bool.not_eq_true] at bare
      refine .binary (fun front _ _ same => by rw [same]) shape first second ?_
      rw [bare]
      exact ih last (by simpa [endsInInt, bare] using noInt)
  | bool => exact .literal .bool isIndex rfl noInt
  | nil => exact .literal .nil isIndex rfl noInt
  | float positive => exact .literal (.float positive) isIndex rfl noInt
  | int => cases noInt
  | text => exact .literal .text isIndex rfl noInt
  | _ => cases last

/-- A path of indexes behind a tree whose parentheses are spare. -/
theorem of_spare (h : Spellable grammar Token.standardKeywords inner)
    (isIndex : ∀ index ∈ path, IsIndex index)
    (spare : Spare grammar inner (indexSymbols path ++ others))
    (apart : inner.endsInInt grammar = true → path = []) :
    MeetsPath (· = ·) path (render grammar spacing inner).toList (spell grammar inner []) := by
  by_cases nonempty : path = []
  · subst nonempty
    exact nil h fun _ => rfl
  · have noInt : inner.endsInInt grammar = false := by
      rw [← Bool.not_eq_true]
      exact fun int => nonempty (apart int)
    obtain ⟨-, leaves⟩ := spare
    obtain ⟨bare, last⟩ := leaves (opensAccess_indexSymbols nonempty others)
    cases h with
    | unary _ shape _ operand =>
      refine .unary (fun front _ _ same => by rw [same]) shape operand ?_
      rw [bare]
      exact of_lastLiteral? operand isIndex last (by simpa [endsInInt, bare] using noInt)

end MeetsPath

-- ============================================================================
-- The seam of a pair
-- ============================================================================

/-- A path of indexes goes on with a number before it. -/
theorem endsWord_indexChars {index : String} (path : List String) (h : IsIndex index)
    (tail : List Char) : endsWord (indexChars (index :: path) ++ tail) = false := by
  obtain ⟨c, digits, hindex⟩ := List.exists_cons_of_ne_nil h.toList_ne_nil
  have digit : c.isDigit = true := h.isDigit c (by simp [hindex])
  simp [indexChars, hindex, endsWord, digit]

/-- `Seam grammar spacing expr before inner front back path others`: the text of the printed tree
    has the pair around the inner tree between the front and the back, which is a path of
    indexes and what stands behind it. Without the pair the inner tree meets that path. -/
structure Seam (grammar : Grammar) (spacing : Spacing) (expr : Expr) (before : List Symbol)
    (inner : Expr) (front back : List Char) (path : List String) (others : List Symbol) :
    Prop where
  text_eq : (render grammar spacing expr).toList =
    front ++ '(' :: ((render grammar spacing inner).toList ++ ')' :: back)
  leads : Scans Token.standardKeywords front before
  isIndex : ∀ index ∈ path, IsIndex index
  ends : endsWord back = true ↔ path = []
  joins : ∀ symbols, Spells Token.standardKeywords
      ((render grammar spacing inner).toList ++ indexChars path) symbols →
    Scans Token.standardKeywords (front ++ ((render grammar spacing inner).toList ++ back))
      (before ++ (symbols ++ others))

/-- A pair among the symbols of a printed tree has its seam in the text. -/
theorem Encloses.exists_seam {expr : Expr}
    (h : Encloses grammar (.bare expr []) before inner after)
    (spellable : Spellable grammar Token.standardKeywords expr) (spacing : Spacing) :
    ∃ front back path others, after = indexSymbols path ++ others ∧
      Seam grammar spacing expr before inner front back path others := by
  have valid : (Stretch.bare expr []).Valid grammar Token.standardKeywords :=
    ⟨spellable, by simp⟩
  have hinner := h.hereditary Spellable.hereditary spellable
  obtain ⟨front, back, same, leads, behind⟩ := @Encloses.splits _ spacing _ _ _ _ h valid
  obtain ⟨path, tail, others, isIndex, hback, hafter, follows⟩ := behind [] (.inl rfl) (by simp)
  rw [indexChars, List.flatMap_nil, List.append_nil] at hback
  rw [indexSymbols, List.append_nil] at hafter
  rw [Stretch.text, indexChars, List.flatMap_nil, List.append_nil] at same
  have tailEnds : endsWord tail = true := by simpa using follows.ends [] rfl
  have tailScans : Scans Token.standardKeywords tail others := by
    simpa using follows.spells [] [] rfl .nil
  refine ⟨front, back, path, others, hafter, same, leads.scans, isIndex, ?_, ?_⟩
  · rw [hback]
    cases path with
    | nil => simpa [indexChars] using tailEnds
    | cons index path =>
      rw [endsWord_indexChars path (isIndex index List.mem_cons_self)]
      simp
  · intro symbols spells
    have scans := spells tail others tailEnds tailScans
    rw [List.append_assoc, ← hback] at scans
    exact leads _ _ ((opens_render hinner).append back).2 scans

namespace Seam

variable {expr : Expr} {front back : List Char} {path : List String} {others : List Symbol}

/-- Without the pair the text is scanned to the symbols that are left, unless an integer takes
    an index behind it for its fraction: then there is less to count. -/
theorem exists_scans (seam : Seam grammar spacing expr before inner front back path others)
    (hinner : Spellable grammar Token.standardKeywords inner) :
    ∃ symbols, Scans Token.standardKeywords
        (front ++ ((render grammar spacing inner).toList ++ back)) symbols ∧
      (SameOutline symbols (before ++ (spell grammar inner [] ++ (indexSymbols path ++ others))) ∧
          (inner.endsInInt grammar = true → endsWord back = true) ∨
        Smaller symbols
          (before ++ (spell grammar inner [] ++ (indexSymbols path ++ others)))) := by
  by_cases joins : inner.endsInInt grammar = true ∧ path ≠ []
  · obtain ⟨int, nonempty⟩ := joins
    obtain ⟨symbols, spells, less⟩ :=
      @MeetsPath.of_endsInInt _ spacing _ _ hinner seam.isIndex nonempty int
    refine ⟨_, seam.joins symbols spells, .inr ?_⟩
    simp only [Smaller, outline_append, size_append] at less ⊢
    omega
  · have apart (int : inner.endsInInt grammar = true) : path = [] := by
      by_contra nonempty
      exact joins ⟨int, nonempty⟩
    obtain ⟨symbols, spells, same⟩ : MeetsPath SameOutline path
        (render grammar spacing inner).toList (spell grammar inner []) := by
      by_cases nonempty : path = []
      · subst nonempty
        exact MeetsPath.nil hinner fun _ => rfl
      · refine .of_endsInInt_eq_false hinner seam.isIndex ?_
        rw [← Bool.not_eq_true]
        exact fun int => nonempty (apart int)
    refine ⟨_, seam.joins symbols spells, .inl ⟨?_, fun int => seam.ends.2 (apart int)⟩⟩
    rw [SameOutline, outline_append] at same
    simp only [SameOutline, outline_append, same, List.append_assoc]

/-- Without a spare pair the text is scanned to the symbols that are left. -/
theorem scans_of_spare (seam : Seam grammar spacing expr before inner front back path others)
    (hinner : Spellable grammar Token.standardKeywords inner)
    (spare : Spare grammar inner (indexSymbols path ++ others))
    (apart : inner.endsInInt grammar = true → endsWord back = true) :
    Scans Token.standardKeywords (front ++ ((render grammar spacing inner).toList ++ back))
      (before ++ (spell grammar inner [] ++ (indexSymbols path ++ others))) := by
  obtain ⟨symbols, spells, rfl⟩ :=
    @MeetsPath.of_spare _ spacing _ _ _ hinner seam.isIndex spare fun int => seam.ends.1 (apart int)
  simpa using seam.joins _ spells

end Seam

end ExprMachine
