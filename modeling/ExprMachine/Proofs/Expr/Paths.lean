/-
  ExprMachine.Proofs.Expr.Paths

  Access paths as they are spelt: a name, and after points further names and indexes.
  The scanner takes indexes in pairs, with the points before them, so its tokens do not
  end where segments do. The parser takes them apart again: the tree has one property for
  each segment, in order, and an index counts by its value alone.
-/
import ExprMachine.Proofs.Expr.RoundTrip

namespace ExprMachine

open ExprMachine.Expr Lexeme Reading

-- ============================================================================
-- Segments
-- ============================================================================

/-- A segment of an access path, as it is spelt. -/
inductive Segment where
  | name (word : String)
  | index (numeral : String)

namespace Segment

/-- What stands for a segment in a source. -/
def text : Segment → String
  | name word => word
  | index numeral => numeral

/-- The number that the digits of a numeral make by position. Separators do not count. -/
def value (numeral : String) : Nat :=
  Nat.ofDigitChars 10 (numeral.toList.filter (· ≠ '_')) 0

/-- The property that a segment asks for: a name itself, an index in canonical decimal. -/
def property : Segment → String
  | name word => word
  | index numeral => toString (value numeral)

/-- Whether a segment may stand in a path: a name is a word and no keyword, an index a
    numeral of at most 64 bits. -/
def Valid (keywords : List String) : Segment → Prop
  | name word => IsWord keywords word
  | index numeral => IsNumeral numeral.toList ∧ value numeral < 2 ^ 64

end Segment

/-- The source of an access path. -/
def accessPath (root : String) (segments : List Segment) : String :=
  ".".intercalate (root :: segments.map Segment.text)

/-- The tree of an access path: one property of the tree so far for each segment in turn,
    starting from the root. -/
def pathTree (root : String) (segments : List Segment) : Expr :=
  (segments.map Segment.property).foldl .property (.identifier root)

theorem depth_pathTree (root : String) (segments : List Segment) :
    (pathTree root segments).depth = segments.length + 1 := by
  rw [pathTree, depth_foldl_property, List.length_map, depth, Nat.add_comm]

/-- The characters of segments, each after its point. -/
def segmentChars (segments : List Segment) : List Char :=
  segments.flatMap fun segment => '.' :: segment.text.toList

theorem toList_accessPath (root : String) (segments : List Segment) :
    (accessPath root segments).toList = root.toList ++ segmentChars segments := by
  unfold accessPath segmentChars
  induction segments generalizing root with
  | nil => simp
  | cons segment segments ih =>
    rw [List.map_cons, String.intercalate_cons_cons, String.toList_append, ih]
    simp

-- ============================================================================
-- Symbols
-- ============================================================================

/-- The symbols of segments after some indexes that are waiting for their symbols: indexes
    are taken in pairs up to the next name. -/
def pathSymbols : (waiting : List String) → List Segment → List Symbol
  | waiting, [] => indexSymbols waiting
  | waiting, .name word :: segments =>
    indexSymbols waiting ++ .operator "." :: .word word :: pathSymbols [] segments
  | waiting, .index numeral :: segments => pathSymbols (waiting ++ [numeral]) segments

variable {keywords : List String}

theorem head_segmentChars {segments : List Segment} {rest : List Char}
    (h : rest.head?.any isWordPart = false) :
    (segmentChars segments ++ rest).head?.any isWordPart = false := by
  cases segments with
  | nil => exact h
  | cons segment segments =>
    simp only [segmentChars, List.flatMap_cons, List.cons_append, List.head?_cons, Option.any_some]
    decide

theorem spells_pathSymbols {segments : List Segment} :
    ∀ {waiting : List String}, (∀ numeral ∈ waiting, IsNumeral numeral.toList) →
      (∀ segment ∈ segments, segment.Valid keywords) →
        Spells keywords (indexChars waiting ++ segmentChars segments)
          (pathSymbols waiting segments) := by
  induction segments with
  | nil =>
    intro waiting numerals _
    simpa [segmentChars, pathSymbols] using Spells.indexes numerals
  | cons segment segments ih =>
    intro waiting numerals valid
    obtain ⟨first, others⟩ := List.forall_mem_cons.1 valid
    cases segment with
    | name word =>
      have more := @ih [] (by simp) others
      have named : Spells keywords (word.toList ++ segmentChars segments)
          (.word word :: pathSymbols [] segments) := fun rest symbols ends scans => by
        rw [List.append_assoc]
        exact .token (lexes_word first (head_segmentChars (endsWord_iff.1 ends).1))
          (more rest symbols ends scans)
      have := (Spells.indexes numerals).append (Spells.point first named) fun rest => by
        rw [List.cons_append, List.append_assoc]
        exact endsWord_point first _
      simpa [segmentChars, pathSymbols, Segment.text] using this
    | index numeral =>
      have longer : ∀ other ∈ waiting ++ [numeral], IsNumeral other.toList := by
        rw [List.forall_mem_append, List.forall_mem_singleton]
        exact ⟨numerals, first.1⟩
      simpa [segmentChars, indexChars, pathSymbols, Segment.text] using ih longer others

theorem opensArguments_pathSymbols {segments : List Segment} :
    ∀ {waiting : List String} {rest : List Symbol}, opensArguments rest = false →
      opensArguments (pathSymbols waiting segments ++ rest) = false := by
  induction segments with
  | nil => exact opensArguments_indexSymbols
  | cons segment segments ih =>
    intro waiting rest done
    cases segment with
    | name word =>
      rw [pathSymbols, List.append_assoc]
      exact opensArguments_indexSymbols (by simp [opensArguments])
    | index numeral => exact ih done

-- ============================================================================
-- Trees
-- ============================================================================

/-- A numeral is read as the number that it makes, in canonical decimal. -/
theorem ofIndex_numeral {numeral : String} (h : IsNumeral numeral.toList)
    (fits : Segment.value numeral < 2 ^ 64) :
    ofIndex numeral.toList = some (toString (Segment.value numeral)) := by
  have digits : ∀ d ∈ withoutSeparators numeral.toList, d.isDigit = true := fun d mem => by
    obtain ⟨mem, other⟩ := List.mem_filter.1 mem
    exact (h.parts d mem).resolve_right (of_decide_eq_true other)
  have nonempty : withoutSeparators numeral.toList ≠ [] := by
    have opens := h.opens
    cases hnumeral : numeral.toList with
    | nil =>
      rw [hnumeral] at opens
      cases opens
    | cons c others =>
      have digit : c.isDigit = true := by simpa [hnumeral] using opens
      have kept : c ∈ withoutSeparators (c :: others) :=
        List.mem_filter.2 ⟨List.mem_cons_self, decide_eq_true (by rintro rfl; cases digit)⟩
      exact List.ne_nil_of_mem kept
  exact ofIndex_decimal nonempty digits fits

theorem nests_pathSymbols {grammar : Grammar} {n : Nat} {segments : List Segment} :
    ∀ {expr : Expr} {waiting names : List String} {symbols rest : List Symbol},
      (∀ segment ∈ segments, segment.Valid keywords) →
      List.Forall₂ (fun numeral name => ofIndex numeral.toList = some name) waiting names →
      opensArguments rest = false →
      Nests grammar n (.stem expr) symbols (pathSymbols waiting segments ++ rest) →
        Nests grammar n
          (.stem ((names ++ segments.map Segment.property).foldl .property expr)) symbols rest := by
  induction segments with
  | nil =>
    intro expr waiting names symbols rest _ read _ stem
    simpa using nests_indexSymbols read stem
  | cons segment segments ih =>
    intro expr waiting names symbols rest valid read done stem
    obtain ⟨first, others⟩ := List.forall_mem_cons.1 valid
    cases segment with
    -- A name ends the indexes before it, so that they are read first.
    | name word =>
      rw [pathSymbols, List.append_assoc] at stem
      have named := Nests.property (nests_indexSymbols read stem) (opensArguments_pathSymbols done)
      simpa [Segment.property] using ih others .nil done named
    -- Another index only waits with the others.
    | index numeral =>
      have longer := List.rel_append read (.cons (ofIndex_numeral first.1 first.2) .nil)
      simpa [Segment.property] using ih others longer done stem

-- ============================================================================
-- Whole sources
-- ============================================================================

namespace Source

section Path

variable {root : String} {segments : List Segment}
  (word : IsWord Token.standardKeywords root) (plain : root ∉ ["true", "false", "nil"])
  (valid : ∀ segment ∈ segments, segment.Valid Token.standardKeywords)
include word plain valid

/-- However long an access path is, its tokens spell its tree and open one level. -/
theorem exists_nests_accessPath :
    ∃ tokens, Token.scan Token.standardKeywords (accessPath root segments) = .ok tokens ∧
      Nests .standard 1 (.expression 0 (pathTree root segments)) (Token.spelt tokens) [] := by
  have named : Symbol.literal? (.word root) = none := by
    simp only [List.mem_cons, List.not_mem_nil, or_false, not_or] at plain
    simp [Symbol.literal?, plain]
  have scans : Scans Token.standardKeywords (accessPath root segments).toList
      (.word root :: pathSymbols [] segments) := by
    rw [toList_accessPath, ← List.append_nil (segmentChars segments)]
    refine .token (lexes_word word (head_segmentChars rfl)) ?_
    have none : ∀ numeral ∈ ([] : List String), IsNumeral numeral.toList := by simp
    simpa [indexChars] using spells_pathSymbols none valid [] [] rfl .nil
  obtain ⟨tokens, scanned, spelt⟩ := Token.scan_of_scans scans
  have stem := @nests_pathSymbols _ .standard 0 segments _ [] [] _ [] valid .nil rfl
    (.name named)
  rw [List.nil_append, List.append_nil, ← spelt] at stem
  exact ⟨tokens, scanned, .expression (.single (.operand stem rfl)) rfl⟩

/-- An access path of at most 255 segments is parsed to one property for each segment, over
    the root and in order, however its indexes are spelt. -/
theorem expr_accessPath (short : segments.length ≤ 255) :
    expr (accessPath root segments) = .ok (pathTree root segments) := by
  obtain ⟨tokens, scanned, nests⟩ := exists_nests_accessPath word plain valid
  rcases Expr.parse_of_nests nests with ⟨-, parsed⟩ | ⟨unfit, -⟩
  · exact expr_eq_ok_iff.2 ⟨tokens, scanned, parsed⟩
  · refine absurd ⟨by decide, ?_⟩ unfit
    rw [depth_pathTree, maxDepth]
    omega

/-- A longer one is refused for its depth. -/
theorem expr_accessPath_refused (long : 255 < segments.length) :
    ∃ error, expr (accessPath root segments) = .error (.parse error) ∧
      error.cause = .nestedTooDeeply := by
  obtain ⟨tokens, scanned, nests⟩ := exists_nests_accessPath word plain valid
  rcases Expr.parse_of_nests nests with ⟨⟨-, fits⟩, -⟩ | ⟨-, error, refused, cause⟩
  · rw [depth_pathTree, maxDepth] at fits
    omega
  · refine ⟨error, ?_, cause⟩
    simp only [expr, Source.tokens, scanned, refused, Except.mapError]

end Path

/-- Three indexes in a row between names, two of them not in canonical form. -/
theorem expr_accessPath_mixed :
    expr "x.a.01.1_0.2.true" =
      .ok (.property (.property (.property (.property (.property (.identifier "x")
        "a") "1") "10") "2") "true") := by
  have word {c : Char} (opens : isWordStart c = true)
      (unknown : Token.standardKeywords.contains (String.ofList [c]) = false) :
      IsWord Token.standardKeywords (String.ofList [c]) :=
    ⟨c, [], String.toList_ofList, opens, fun _ mem => absurd mem List.not_mem_nil, unknown⟩
  let segments : List Segment :=
    [.name "a", .index "01", .index "1_0", .index "2", .name "true"]
  have valid : ∀ segment ∈ segments, segment.Valid Token.standardKeywords := by
    simp only [segments, List.forall_mem_cons]
    exact ⟨word (c := 'a') (by decide) (by decide), ⟨⟨rfl, by simp⟩, by decide⟩,
      ⟨⟨rfl, by simp⟩, by decide⟩, ⟨⟨rfl, by simp⟩, by decide⟩, isWord_constant (by simp), by simp⟩
  have source : accessPath "x" segments = "x.a.01.1_0.2.true" := by decide
  have tree : pathTree "x" segments = .property (.property (.property (.property (.property
      (.identifier "x") "a") "1") "10") "2") "true" := by rfl
  rw [← source, ← tree]
  exact expr_accessPath (word (c := 'x') (by decide) (by decide)) (by decide) valid (by decide)

end Source

end ExprMachine
