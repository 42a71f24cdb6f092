/-
  ExprMachine.Proofs.Token.Lossless

  Tokens lose only blanks. A source is the lexemes of its tokens, in their order and with
  nothing but blanks between them; every token says its lexeme and the place where it
  starts, and so does the mark of the end. Places are counted here on the source: the
  newlines before them, and the characters after the last of these.
-/
import Mathlib.Data.List.DropRight
import ExprMachine.Proofs.Token.Placing

namespace ExprMachine

-- ============================================================================
-- Counted places
-- ============================================================================

namespace Position

/-- The place after a text, as many lines down as the text has newlines and as many
    characters to the right as stand after the last one. -/
def after (text : List Char) : Position :=
  ⟨1 + text.count '\n', (text.rtakeWhile (· ≠ '\n')).length⟩

/-- Advancing over a text counts. -/
theorem advanceAll_start (text : List Char) : start.advanceAll text = after text := by
  induction text using List.reverseRecOn with
  | nil => rfl
  | append_singleton text c ih =>
    rw [advanceAll_append, ih, advanceAll_cons, advanceAll_nil, advance]
    by_cases newline : c = '\n'
    · subst newline
      rw [if_pos rfl, after, after, List.rtakeWhile_concat, if_neg (by decide),
        List.count_append, List.count_singleton_self]
      rfl
    · have goesOn : decide (c ≠ '\n') = true := decide_eq_true newline
      rw [if_neg newline, after, after, List.rtakeWhile_concat, if_pos goesOn,
        List.count_append, List.count_singleton, beq_false_of_ne newline, List.length_append]
      rfl

end Position

-- ============================================================================
-- Text literals
-- ============================================================================

namespace Lexeme

/-- `Denotes quote written content`: between two such quotes the characters denote this
    text. Characters denote themselves, but for escapes, and for a carriage return, which
    is a newline. Neither the quote nor a newline stands there as it is. -/
inductive Denotes (quote : Char) : List Char → List Char → Prop where
  | nil : Denotes quote [] []
  | escape {c meant written content} (escapes : escape? quote c = some meant)
      (more : Denotes quote written content) :
      Denotes quote ('\\' :: c :: written) (meant :: content)
  | carriageReturn {written content} (more : Denotes quote written content) :
      Denotes quote ('\r' :: written) ('\n' :: content)
  | plain {c written content} (ordinary : c ∉ [quote, '\\', '\n', '\r'])
      (more : Denotes quote written content) : Denotes quote (c :: written) (c :: content)

/-- A text literal is read as what the characters before its closing quote denote. -/
theorem denotes_of_textFrom {quote : Char} {content source value left : List Char}
    {length size : Nat} (h : textFrom quote content length source = .ok (value, size, left)) :
    ∃ written meaning, source = written ++ quote :: left ∧ Denotes quote written meaning ∧
      value = content.reverse ++ meaning := by
  fun_induction textFrom quote content length source with
  | case1 | case2 | case4 | case5 => cases h
  | case3 content length rest =>
    cases h
    exact ⟨[], [], rfl, .nil, (List.append_nil _).symm⟩
  | case6 content length d rest meant escaped newline quoted ih =>
    obtain ⟨written, meaning, rfl, denotes, rfl⟩ := ih h
    exact ⟨'\\' :: d :: written, meant :: meaning, rfl, .escape escaped denotes, by simp⟩
  | case7 content length c rest newline quoted plain ih =>
    obtain ⟨written, meaning, rfl, denotes, rfl⟩ := ih h
    refine ⟨c :: written, (if c = '\r' then '\n' else c) :: meaning, rfl, ?_, by simp⟩
    by_cases carriageReturn : c = '\r'
    · subst carriageReturn
      exact .carriageReturn denotes
    · rw [if_neg carriageReturn]
      refine .plain ?_ denotes
      simp [newline, quoted, plain, carriageReturn]

end Lexeme

-- ============================================================================
-- Tokens and their lexemes
-- ============================================================================

/-- Whether a token says what its lexeme spells: a text token what the characters between
    its quotes denote, every other token its own characters. -/
structure Token.SpeltBy (token : Token) (lexeme : List Char) : Prop where
  literal : token.kind = .text → ∃ quote written, (quote = '\'' ∨ quote = '"') ∧
    lexeme = quote :: written ++ [quote] ∧ Lexeme.Denotes quote written token.value.toList
  word : token.kind ≠ .text → lexeme = token.value.toList

namespace Lexes

variable {keywords : List String} {source left lexeme : List Char}

/-- A symbol takes at least one character. -/
theorem length_lt {symbol : Symbol} (h : Lexes keywords source symbol left) :
    left.length < source.length := by
  obtain ⟨c, rest, rfl, found⟩ := Token.next_of_lexes h
  obtain ⟨token, cursor, hnext, -, rfl⟩ := found .start
  exact Token.length_next_lt hnext

theorem exists_literal {value : String} (h : Lexes keywords source (.text value) left) :
    ∃ quote written, (quote = '\'' ∨ quote = '"') ∧
      source = quote :: written ++ [quote] ++ left ∧
        Lexeme.Denotes quote written value.toList := by
  cases h with
  | @text quote source content length _ opens read =>
    obtain ⟨written, meaning, rfl, denotes, rfl⟩ := Lexeme.denotes_of_textFrom read
    refine ⟨quote, written, opens, by simp, ?_⟩
    rw [String.toList_ofList]
    exact denotes

theorem speltBy {token : Token} (h : Lexes keywords (lexeme ++ left) token.symbol left) :
    token.SpeltBy lexeme where
  literal isText := by
    have symbol : token.symbol = .text token.value := by rw [Token.symbol, isText]
    obtain ⟨quote, written, opens, hsource, denotes⟩ := exists_literal (symbol ▸ h)
    exact ⟨quote, written, opens, List.append_cancel_right hsource, denotes⟩
  word notText := List.append_cancel_right (h.source_eq notText)

end Lexes

-- ============================================================================
-- Sources in pieces
-- ============================================================================

/-- A token with its lexeme and the blanks before it. -/
structure Piece where
  gap : List Char
  lexeme : List Char
  token : Token
  blank : gap.all Text.isBlank = true
  nonempty : lexeme ≠ []
  spelt : token.SpeltBy lexeme
  notEnd : token.kind ≠ .endOfInput

namespace Piece

/-- The characters of some pieces. -/
def textOf (pieces : List Piece) : List Char :=
  pieces.flatMap fun piece => piece.gap ++ piece.lexeme

/-- Whether every piece has its token at the place that the characters before its lexeme
    reach, for pieces that start at a place. -/
def Placed : Position → List Piece → Prop
  | _, [] => True
  | place, piece :: pieces =>
    piece.token.position = place.advanceAll piece.gap ∧
      Placed (place.advanceAll (piece.gap ++ piece.lexeme)) pieces

theorem Placed.position_eq {place : Position} {before later : List Piece} {piece : Piece}
    (h : Placed place (before ++ piece :: later)) :
    piece.token.position = place.advanceAll (textOf before ++ piece.gap) := by
  induction before generalizing place with
  | nil => exact h.1
  | cons first before ih =>
    rw [ih h.2, ← Position.advanceAll_append, ← List.append_assoc]
    rfl

end Piece

/-- `Tiles source tokens pieces last`: the source is its pieces and the blanks at the end,
    and the tokens are those of the pieces and the mark of the end, each of them at the
    place where it stands in the source. -/
structure Tiles (source : List Char) (tokens : List Token) (pieces : List Piece)
    (last : List Char) : Prop where
  source_eq : source = Piece.textOf pieces ++ last
  blank : last.all Text.isBlank = true
  tokens_eq : tokens = pieces.map Piece.token ++ [⟨.endOfInput, .after source, ""⟩]
  placed : ∀ before piece later, pieces = before ++ piece :: later →
    piece.token.position = .after (Piece.textOf before ++ piece.gap)

/-- Whatever is tokenized falls into pieces. -/
theorem Tokenizes.exists_pieces {keywords : List String} {place : Position}
    {source rest : List Char} {tokens : List Token}
    (h : Tokenizes keywords place source tokens rest) :
    ∃ pieces last, source = Piece.textOf pieces ++ (last ++ rest) ∧
      last.all Text.isBlank = true ∧ pieces.map Piece.token = tokens ∧
        Piece.Placed place pieces := by
  induction h with
  | done => exact ⟨[], [], rfl, rfl, rfl, trivial⟩
  | @blank place c source tokens rest isBlank _ ih =>
    -- The blank goes to the gap of the piece after it, or to the end of the source.
    obtain ⟨pieces, last, rfl, blank, htokens, placed⟩ := ih
    cases pieces with
    | nil => exact ⟨[], c :: last, rfl, by simp [isBlank, blank], htokens, trivial⟩
    | cons piece pieces =>
      have hgap : (c :: piece.gap).all Text.isBlank = true := by simp [isBlank, piece.blank]
      exact ⟨{ piece with gap := c :: piece.gap, blank := hgap } :: pieces, last, rfl, blank,
        htokens, placed⟩
  | @token place token lexeme between tokens rest starts lexes _ ih =>
    obtain ⟨pieces, last, hbetween, blank, htokens, placed⟩ := ih
    have nonempty : lexeme ≠ [] := by
      rintro rfl
      exact Nat.lt_irrefl _ lexes.length_lt
    refine ⟨⟨[], lexeme, token, rfl, nonempty, lexes.speltBy, lexes.kind_ne⟩ :: pieces, last, ?_,
      blank, congrArg (token :: ·) htokens, starts, placed⟩
    calc lexeme ++ between = lexeme ++ (Piece.textOf pieces ++ (last ++ rest)) :=
          congrArg _ hbetween
      _ = lexeme ++ Piece.textOf pieces ++ (last ++ rest) := (List.append_assoc ..).symm

namespace Token

/-- The last token marks the place after all characters. -/
theorem getLast?_of_scanFrom {keywords : List String} {found : Array Token} {cursor : Cursor}
    {tokens : List Token} (h : scanFrom keywords found cursor = .ok tokens) :
    tokens.getLast? = some ⟨.endOfInput, cursor.position.advanceAll cursor.rest, ""⟩ := by
  fun_induction scanFrom keywords found cursor with
  | case1 found cursor hrest =>
    cases h
    rw [hrest, Array.toList_push, List.getLast?_concat]
    rfl
  | case2 => cases h
  | case3 found cursor c rest hrest after hnext ih =>
    rw [ih h, hrest, cursor_of_next_blank hnext]
    rfl
  | case4 found cursor c rest hrest token after hnext ih =>
    obtain ⟨-, lexeme, hsource, hplace⟩ := place_of_next hnext
    rw [ih h, hrest, hsource, hplace, Position.advanceAll_append]

/-- Whatever list of keywords there is, a source that is scanned is the lexemes of its
    tokens with blanks between them: tokens say their lexemes and the places where these
    start, and the last token marks the end. -/
theorem scan_lossless {keywords : List String} {source : String} {tokens : List Token}
    (h : scan keywords source = .ok tokens) :
    ∃ pieces last, Tiles source.toList tokens pieces last := by
  obtain ⟨found, mark, rfl, -, -, tokenizes⟩ := tokenizes_of_scan h
  obtain ⟨pieces, last, hsource, blank, rfl, placed⟩ := tokenizes.exists_pieces
  have hmark := getLast?_of_scanFrom h
  rw [List.getLast?_concat, Option.some.injEq] at hmark
  refine ⟨pieces, last, by simpa using hsource, blank, ?_, ?_⟩
  · rw [hmark]
    simp only [Position.advanceAll_start]
  · rintro before piece later rfl
    rw [placed.position_eq, Position.advanceAll_start]

/-- A source of two lines with a keyword of its own. -/
theorem scan_lossless_lines :
    ∃ pieces last, Tiles "a\n 'x\\n' if".toList
      [⟨.identifier, ⟨1, 0⟩, "a"⟩, ⟨.text, ⟨2, 1⟩, "x\n"⟩, ⟨.operator, ⟨2, 7⟩, "if"⟩,
        ⟨.endOfInput, ⟨2, 9⟩, ""⟩] pieces last := by
  have literal : next ["if"] ⟨2, 1⟩ '\'' ['x', '\\', 'n', '\'', ' ', 'i', 'f'] =
      .ok (some ⟨.text, ⟨2, 1⟩, "x\n"⟩, ⟨[' ', 'i', 'f'], ⟨2, 6⟩⟩) := by
    have read : Lexeme.text '\'' ['x', '\\', 'n', '\'', ' ', 'i', 'f'] =
        .ok (['x', '\n'], 5, [' ', 'i', 'f']) := rfl
    rw [next_text (.inl rfl), nextText, read]
  have scanned : scan ["if"] "a\n 'x\\n' if" = .ok [⟨.identifier, ⟨1, 0⟩, "a"⟩,
      ⟨.text, ⟨2, 1⟩, "x\n"⟩, ⟨.operator, ⟨2, 7⟩, "if"⟩, ⟨.endOfInput, ⟨2, 9⟩, ""⟩] := by
    rw [scan, scanFrom_token rfl rfl, scanFrom_blank rfl rfl, scanFrom_blank rfl rfl,
      scanFrom_token rfl literal, scanFrom_blank rfl rfl, scanFrom_token rfl rfl,
      scanFrom_nil rfl]
    rfl
  exact scan_lossless scanned

end Token

end ExprMachine
