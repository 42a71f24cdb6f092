/-
  ExprMachine.Proofs.Token.Widening

  Blanks between tokens have no meaning. A source with more blanks before, between and
  after its tokens is scanned to the same symbols, because every token ends where a blank
  follows; so it is the same expression, or fails for the same cause.
-/
import ExprMachine.Proofs.Expr.Blame
import ExprMachine.Proofs.Token.Lossless

namespace ExprMachine

-- ============================================================================
-- Blanks
-- ============================================================================

namespace Text

theorem not_isNumeric_of_isBlank {c : Char} (h : isBlank c = true) : isNumeric c = false := by
  unfold isNumeric
  split
  · cases digit : c.isDigit with
    | false => rfl
    | true => simp [not_isBlank_of_isDigit digit] at h
  · exact not_inRanges_of_apart (by decide +kernel) h

end Text

namespace Lexeme

/-- A blank goes on with no token. -/
theorem breaks_of_isBlank {c : Char} (h : Text.isBlank c = true) : breaks c = true := by
  have plain {d : Char} (graphic : Text.isBlank d = false) : c ≠ d := by
    rintro rfl
    rw [h] at graphic
    cases graphic
  have notAlphabetic : Text.isAlphabetic c = false := by
    cases alphabetic : Text.isAlphabetic c with
    | false => rfl
    | true => simp [Text.not_isBlank_of_isAlphabetic alphabetic] at h
  have notPart : isWordPart c = false := by
    have underscore : (c == '_') = false := beq_false_of_ne (plain (by decide))
    have dollar : (c == '$') = false := beq_false_of_ne (plain (by decide))
    rw [isWordPart, notAlphabetic, Text.not_isNumeric_of_isBlank h, underscore, dollar]
    rfl
  have notPairEnd : Token.isPairEnd c = false := by
    have ampersand : c ≠ '&' := plain (by decide)
    have bar : c ≠ '|' := plain (by decide)
    have equals : c ≠ '=' := plain (by decide)
    simp [Token.isPairEnd, ampersand, bar, equals]
  exact breaks_iff.2 ⟨notPart, plain (by decide), notPairEnd⟩

end Lexeme

theorem Scans.blanks {keywords : List String} {gap source : List Char} {symbols : List Symbol}
    (blank : gap.all Text.isBlank = true) (h : Scans keywords source symbols) :
    Scans keywords (gap ++ source) symbols := by
  induction gap with
  | nil => exact h
  | cons c gap ih =>
    obtain ⟨first, others⟩ := Bool.and_eq_true_iff.1 blank
    exact .blank first (ih others)

-- ============================================================================
-- One way to fall into pieces
-- ============================================================================

namespace Lexeme

/-- A text literal ends with the first quote that no backslash escapes. -/
theorem Denotes.eq_of_append_eq {quote : Char} (opens : quote = '\'' ∨ quote = '"')
    {written written' content content' left left' : List Char}
    (h : Denotes quote written content) (h' : Denotes quote written' content')
    (same : written ++ quote :: left = written' ++ quote :: left') : written = written' := by
  have notBackslash : quote ≠ '\\' := by rcases opens with rfl | rfl <;> decide
  have notReturn : quote ≠ '\r' := by rcases opens with rfl | rfl <;> decide
  induction h generalizing written' content' with
  | nil =>
    cases h' with
    | nil => rfl
    | escape => exact absurd (List.cons.inj same).1 notBackslash
    | carriageReturn => exact absurd (List.cons.inj same).1 notReturn
    | plain ordinary =>
      have := (List.cons.inj same).1
      simp [this] at ordinary
  | escape _ _ ih =>
    cases h' with
    | nil => exact absurd (List.cons.inj same).1.symm notBackslash
    | escape _ more =>
      obtain ⟨rfl, tails⟩ := List.cons.inj (List.cons.inj same).2
      rw [ih more tails]
    | carriageReturn => exact absurd (List.cons.inj same).1 (by decide)
    | plain ordinary =>
      have := (List.cons.inj same).1
      simp [← this] at ordinary
  | carriageReturn _ ih =>
    cases h' with
    | nil => exact absurd (List.cons.inj same).1.symm notReturn
    | escape => exact absurd (List.cons.inj same).1 (by decide)
    | carriageReturn more => rw [ih more (List.cons.inj same).2]
    | plain ordinary =>
      have := (List.cons.inj same).1
      simp [← this] at ordinary
  | plain ordinary _ ih =>
    cases h' with
    | nil =>
      have := (List.cons.inj same).1
      simp [this] at ordinary
    | escape =>
      have := (List.cons.inj same).1
      simp [this] at ordinary
    | carriageReturn =>
      have := (List.cons.inj same).1
      simp [this] at ordinary
    | plain _ more =>
      obtain ⟨rfl, tails⟩ := List.cons.inj same
      rw [ih more tails]

end Lexeme

/-- A token at the front of a source says how far it goes. -/
theorem Token.SpeltBy.eq_of_append_eq {token : Token} {lexeme lexeme' left left' : List Char}
    (h : token.SpeltBy lexeme) (h' : token.SpeltBy lexeme')
    (same : lexeme ++ left = lexeme' ++ left') : lexeme = lexeme' := by
  by_cases isText : token.kind = .text
  · obtain ⟨quote, written, opens, rfl, denotes⟩ := h.literal isText
    obtain ⟨quote', written', -, rfl, denotes'⟩ := h'.literal isText
    simp only [List.cons_append, List.append_assoc, List.nil_append] at same
    obtain ⟨rfl, same⟩ := List.cons.inj same
    rw [denotes.eq_of_append_eq opens denotes' same]
  · rw [h.word isText, h'.word isText]

namespace Piece

theorem placed_of_position_eq {place : Position} {pieces : List Piece}
    (h : ∀ before piece later, pieces = before ++ piece :: later →
      piece.token.position = place.advanceAll (textOf before ++ piece.gap)) :
    Placed place pieces := by
  induction pieces generalizing place with
  | nil => trivial
  | cons piece pieces ih =>
    refine ⟨h [] piece pieces rfl, ih fun before other later hpieces => ?_⟩
    rw [h (piece :: before) other later (by rw [hpieces]; rfl), ← Position.advanceAll_append,
      ← List.append_assoc]
    rfl

end Piece

/-- Pieces that stand where their tokens say tile their text. -/
theorem Tiles.of_placed {pieces : List Piece} {last : List Char}
    (blank : last.all Text.isBlank = true) (placed : Piece.Placed .start pieces) :
    Tiles (Piece.textOf pieces ++ last) (pieces.map Piece.token ++
      [⟨.endOfInput, .after (Piece.textOf pieces ++ last), ""⟩]) pieces last := by
  refine ⟨rfl, blank, rfl, ?_⟩
  rintro before piece later rfl
  rw [placed.position_eq, Position.advanceAll_start]

theorem Tokenizes.exists_tiles {keywords : List String} {source : List Char}
    {tokens : List Token} (h : Tokenizes keywords .start source tokens []) :
    ∃ pieces last, Tiles source (tokens ++ [⟨.endOfInput, .after source, ""⟩]) pieces last := by
  obtain ⟨pieces, last, hsource, blank, rfl, placed⟩ := h.exists_pieces
  rw [List.append_nil] at hsource
  subst hsource
  exact ⟨pieces, last, .of_placed blank placed⟩

theorem Tiles.placed_start {source last : List Char} {tokens : List Token}
    {pieces : List Piece} (h : Tiles source tokens pieces last) :
    Piece.Placed .start pieces := by
  refine Piece.placed_of_position_eq fun before piece later hpieces => ?_
  rw [Position.advanceAll_start]
  exact h.placed before piece later hpieces

-- ============================================================================
-- More blanks
-- ============================================================================

/-- `Widens pieces last other`: the other source has the lexemes of the pieces in their
    order, and around them the blanks of the pieces with other blanks among them. -/
inductive Widens : List Piece → List Char → List Char → Prop where
  | last {last wider} (sublist : last.Sublist wider) (blank : wider.all Text.isBlank = true) :
      Widens [] last wider
  | piece {piece pieces last gap other} (sublist : piece.gap.Sublist gap)
      (blank : gap.all Text.isBlank = true) (more : Widens pieces last other) :
      Widens (piece :: pieces) last (gap ++ (piece.lexeme ++ other))

/-- Where the other source is not the same it first has a blank more. -/
theorem Widens.resumes {pieces : List Piece} {last other : List Char}
    (h : Widens pieces last other) :
    other = Piece.textOf pieces ++ last ∨ Lexeme.Resumes (Piece.textOf pieces ++ last) other := by
  have starts {source : List Char} (c : Char) (gap after : List Char)
      (blank : (c :: gap).all Text.isBlank = true) :
      Lexeme.Resumes source (c :: gap ++ after) := by
    have first := (Bool.and_eq_true_iff.1 blank).1
    exact .here (Lexeme.breaks_of_isBlank first)
  induction h with
  | @last last wider sublist blank =>
    cases wider with
    | nil => exact .inl (List.eq_nil_of_sublist_nil sublist).symm
    | cons c wider => exact .inr (by simpa using starts c wider [] blank)
  | @piece piece pieces last gap other sublist blank _ ih =>
    cases gap with
    | nil =>
      have noGap : piece.gap = [] := List.eq_nil_of_sublist_nil sublist
      have whole : Piece.textOf (piece :: pieces) ++ last =
          piece.lexeme ++ (Piece.textOf pieces ++ last) := by
        simp [Piece.textOf, noGap]
      rw [whole, List.nil_append]
      rcases ih with rfl | resumes
      · exact .inl rfl
      · exact .inr (resumes.append piece.lexeme)
    | cons c gap => exact .inr (starts c gap _ blank)

/-- The tokens of a source are found between more blanks. -/
theorem Tokenizes.scans_of_widens {keywords : List String} {place : Position}
    {source last other : List Char} {tokens : List Token} {pieces : List Piece}
    (h : Tokenizes keywords place source tokens []) (htokens : pieces.map Piece.token = tokens)
    (hsource : source = Piece.textOf pieces ++ last) (placed : Piece.Placed place pieces)
    (widens : Widens pieces last other) : Scans keywords other (Token.symbols tokens) := by
  generalize hrest : ([] : List Char) = rest at h
  induction h generalizing pieces other with
  | done =>
    obtain rfl := List.map_eq_nil_iff.1 htokens
    cases widens with
    | last _ blank => simpa using Scans.blanks blank .nil
  | @blank place c source tokens rest isBlank more ih =>
    cases pieces with
    | nil =>
      obtain rfl : tokens = [] := htokens.symm
      cases widens with
      | last _ blank => simpa using Scans.blanks blank .nil
    | cons piece pieces =>
      obtain ⟨gap, lexeme, token, blank, nonempty, spelt, notEnd⟩ := piece
      subst htokens
      cases gap with
      | nil =>
        -- The token would stand where the blank stands.
        obtain ⟨before, _, _, _, position, -⟩ := @Tokenizes.split _ _ _ _ [] _ token more
        have here : token.position = place := placed.1
        exact absurd (here.symm.trans position) (Position.advanceAll_ne place c before)
      | cons d gap =>
        obtain ⟨rfl, hsource⟩ := List.cons.inj hsource
        have blank' := (Bool.and_eq_true_iff.1 blank).2
        cases widens with
        | piece sublist wider between =>
          let piece : Piece := ⟨gap, lexeme, token, blank', nonempty, spelt, notEnd⟩
          have kept : gap.Sublist _ := (List.sublist_cons_self c gap).trans sublist
          have widens : Widens (piece :: pieces) last _ := .piece kept wider between
          exact @ih _ (piece :: pieces) rfl hsource ⟨placed.1, placed.2⟩ widens hrest
  | @token place token lexeme between tokens rest starts lexes more ih =>
    cases pieces with
    | nil => cases htokens
    | cons piece pieces =>
      obtain ⟨rfl, others⟩ := List.cons.inj htokens
      have noGap : piece.gap = [] := by
        cases hgap : piece.gap with
        | nil => rfl
        | cons c gap =>
          have position := placed.1
          rw [hgap, starts] at position
          exact absurd position (Position.advanceAll_ne place c gap)
      have whole : Piece.textOf (piece :: pieces) ++ last =
          piece.lexeme ++ (Piece.textOf pieces ++ last) := by
        simp [Piece.textOf, noGap]
      rw [whole] at hsource
      have hlexeme := lexes.speltBy.eq_of_append_eq piece.spelt hsource
      obtain rfl : between = Piece.textOf pieces ++ last := by
        rw [hlexeme] at hsource
        exact List.append_cancel_left hsource
      cases widens with
      | @piece _ _ _ gap other sublist blank widens =>
        have later : Piece.Placed (place.advanceAll lexeme) pieces := by
          have := placed.2
          rwa [noGap, List.nil_append, ← hlexeme] at this
        have scans := ih others rfl later widens hrest
        rw [← hlexeme]
        refine Scans.blanks blank ?_
        rcases widens.resumes with rfl | resumes
        · exact .token lexes scans
        · obtain ⟨lexeme', hlexeme', lexes'⟩ := lexes.resume resumes
          obtain rfl := List.append_cancel_right hlexeme'
          exact .token lexes' scans

-- ============================================================================
-- Whole sources
-- ============================================================================

namespace Token

variable {keywords : List String}

/-- The tokens of a whole source, and the mark of its end. -/
theorem marked_of_scan {source : String} {tokens : List Token}
    (h : scan keywords source = .ok tokens) :
    ∃ found, tokens = found ++ [⟨.endOfInput, .after source.toList, ""⟩] ∧
      spelt tokens = symbols found ∧ Tokenizes keywords .start source.toList found [] := by
  obtain ⟨found, mark, rfl, -, spelt, tokenizes⟩ := tokenizes_of_scan h
  have hmark := getLast?_of_scanFrom h
  rw [List.getLast?_concat, Option.some.injEq, Position.advanceAll_start] at hmark
  exact ⟨found, by rw [hmark], spelt, tokenizes⟩

theorem symbols_of_scan {source : String} {tokens : List Token}
    (h : scan keywords source = .ok tokens) :
    symbols tokens = spelt tokens ++ [⟨.endOfInput, ""⟩] := by
  obtain ⟨found, rfl, spelt, -⟩ := marked_of_scan h
  rw [spelt, symbols, symbols, List.map_append]
  rfl

/-- Blanks have no meaning. A source is tiled by its tokens, and whatever blanks are added
    before, between and after them, it is scanned to the same kinds and values in the same
    order; under any grammar it is then the same tree or fails with the same code. -/
theorem scan_of_widens {source : String} {tokens : List Token}
    (scanned : scan keywords source = .ok tokens) :
    (∃ pieces last, Tiles source.toList tokens pieces last) ∧
    ∀ pieces last (other : String), Tiles source.toList tokens pieces last →
      Widens pieces last other.toList →
      ∃ others, scan keywords other = .ok others ∧ symbols others = symbols tokens ∧
        ∀ grammar, (∃ tree, Expr.parse grammar tokens = .ok tree ∧
            Expr.parse grammar others = .ok tree) ∨
          ∃ error error', Expr.parse grammar tokens = .error error ∧
            Expr.parse grammar others = .error error' ∧ error.code = error'.code := by
  obtain ⟨found, rfl, hspelt, tokenizes⟩ := marked_of_scan scanned
  refine ⟨tokenizes.exists_tiles, fun pieces last other tiles widens => ?_⟩
  have htokens : pieces.map Piece.token = found :=
    (List.append_inj_left' tiles.tokens_eq rfl).symm
  have scans := tokenizes.scans_of_widens htokens tiles.source_eq tiles.placed_start widens
  obtain ⟨others, rescanned, spelt'⟩ := scan_of_scans scans
  have same : symbols others = symbols (found ++ [⟨.endOfInput, .after source.toList, ""⟩]) := by
    rw [symbols_of_scan rescanned, symbols_of_scan scanned, spelt', hspelt]
  refine ⟨others, rescanned, same, fun grammar => ?_⟩
  rcases Expr.parse_of_symbols_eq grammar same.symm with
    parsed | ⟨error, error', failed, failed', cause⟩
  · exact .inl parsed
  · exact .inr ⟨error, error', failed, failed', by rw [ParseError.code, ParseError.code, cause]⟩

/-- A number before a point, on lines of their own. -/
theorem scan_of_widens_lines : ∃ others, scan [] "\n2 .\n x " = .ok others ∧
    symbols others = [.number "2", .operator ".", .word "x", ⟨.endOfInput, ""⟩] := by
  let number : Piece := ⟨[], ['2'], ⟨.number, ⟨1, 0⟩, "2"⟩, rfl, List.cons_ne_nil _ _,
    ⟨fun h => absurd h (by decide), fun _ => rfl⟩, by decide⟩
  let point : Piece := ⟨[], ['.'], ⟨.operator, ⟨1, 1⟩, "."⟩, rfl, List.cons_ne_nil _ _,
    ⟨fun h => absurd h (by decide), fun _ => rfl⟩, by decide⟩
  let word : Piece := ⟨[], ['x'], ⟨.identifier, ⟨1, 2⟩, "x"⟩, rfl, List.cons_ne_nil _ _,
    ⟨fun h => absurd h (by decide), fun _ => rfl⟩, by decide⟩
  have tiles := @Tiles.of_placed [number, point, word] [] rfl ⟨rfl, rfl, rfl, trivial⟩
  have scanned : scan [] "2.x" = .ok [number.token, point.token, word.token,
      ⟨.endOfInput, ⟨1, 3⟩, ""⟩] := by
    with_unfolding_all rfl
  have widens : Widens [number, point, word] [] "\n2 .\n x ".toList :=
    @Widens.piece number _ [] ['\n'] _ (List.nil_sublist _) (by decide) <|
      @Widens.piece point _ [] [' '] _ (List.nil_sublist _) (by decide) <|
        @Widens.piece word _ [] ['\n', ' '] _ (List.nil_sublist _) (by decide) <|
          @Widens.last [] [' '] (List.nil_sublist _) (by decide)
  obtain ⟨others, rescanned, same, -⟩ := (scan_of_widens scanned).2 _ _ _ tiles widens
  exact ⟨others, rescanned, same⟩

end Token

end ExprMachine
