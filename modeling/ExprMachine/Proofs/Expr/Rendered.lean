/-
  ExprMachine.Proofs.Expr.Rendered

  The text of a printed tree is scanned to the symbols of the tree, with and without
  spaces: wherever two tokens meet without a space between them, the first one ends.
-/
import ExprMachine.Proofs.Expr.Floats
import ExprMachine.Proofs.Expr.Spelling

namespace ExprMachine

open ExprMachine.Expr Lexeme

-- ============================================================================
-- Pieces of text
-- ============================================================================

/-- `Spells keywords text symbols`: wherever a word or a number before it would end, the
    text is scanned to the symbols. -/
def Spells (keywords : List String) (text : List Char) (symbols : List Symbol) : Prop :=
  ∀ rest more, endsWord rest = true → Scans keywords rest more →
    Scans keywords (text ++ rest) (symbols ++ more)

variable {keywords : List String}

theorem Spells.nil : Spells keywords [] [] := fun _ _ _ scans => scans

theorem scans_space {source : List Char} {symbols : List Symbol}
    (h : Scans keywords source symbols) : Scans keywords (' ' :: source) symbols :=
  .blank (by decide) h

/-- A character that belongs to no word and is no point ends whatever stands before it. -/
theorem endsWord_cons {c : Char} {rest : List Char} (part : isWordPart c = false)
    (point : c ≠ '.') : endsWord (c :: rest) = true := by
  simp [endsWord, part, point]

/-- Two pieces of text, of which the second one ends what stands before it. -/
theorem Spells.append {text more : List Char} {first second : List Symbol}
    (h : Spells keywords text first) (hmore : Spells keywords more second)
    (ends : ∀ rest, endsWord (more ++ rest) = true) :
    Spells keywords (text ++ more) (first ++ second) := by
  intro rest symbols hrest scans
  have := h _ _ (ends rest) (hmore rest symbols hrest scans)
  simpa using this

/-- Text in parentheses, whatever follows it. -/
theorem Spells.parenthesised {text : String} {symbols : List Symbol}
    (h : Spells keywords text.toList symbols) {rest : List Char} {more : List Symbol}
    (scans : Scans keywords rest more) :
    Scans keywords ((parenthesise true text).toList ++ rest) (Expr.wrap true symbols ++ more) := by
  have inner := h (')' :: rest) (.bracket ")" :: more)
    (endsWord_cons (by decide) (by decide)) (.token (.bracket (by decide)) scans)
  have := Scans.token (.bracket (c := '(') (by decide)) inner
  simpa [parenthesise, Expr.wrap] using this

theorem Spells.wrap {text : String} {symbols : List Symbol} (wrapped : Bool)
    (h : Spells keywords text.toList symbols) :
    Spells keywords (parenthesise wrapped text).toList (Expr.wrap wrapped symbols) := by
  cases wrapped with
  | false => exact h
  | true => exact fun rest more _ scans => h.parenthesised scans

theorem Spells.word {name : String} (h : IsWord keywords name) :
    Spells keywords name.toList [.word name] := by
  intro rest more ends scans
  exact .token (lexes_word h (endsWord_iff.1 ends).1) scans

-- ============================================================================
-- Paths of indexes
-- ============================================================================

/-- The characters of a path of indexes. -/
def indexChars (indexes : List String) : List Char :=
  indexes.flatMap fun index => '.' :: index.toList

theorem head_indexChars {indexes : List String} {rest : List Char}
    (h : rest.head?.any isWordPart = false) :
    (indexChars indexes ++ rest).head?.any isWordPart = false := by
  cases indexes with
  | nil => exact h
  | cons index indexes =>
    simp only [indexChars, List.flatMap_cons, List.cons_append, List.head?_cons, Option.any_some]
    decide

theorem Spells.indexes {numerals : List String}
    (h : ∀ numeral ∈ numerals, IsNumeral numeral.toList) :
    Spells keywords (indexChars numerals) (indexSymbols numerals) := by
  induction numerals using indexSymbols.induct with
  | case1 => exact .nil
  | case2 numeral =>
    intro rest more ends scans
    have := Scans.token (lexes_index (h numeral (by simp)) ends) scans
    have hvalue : "." ++ numeral = String.ofList ('.' :: numeral.toList) := by
      simp
    rw [indexSymbols, hvalue]
    simpa [indexChars] using this
  | case3 first second numerals ih =>
    intro rest more ends scans
    have inner := ih (fun numeral mem => h numeral (by simp [mem])) rest more ends scans
    have := Scans.token (lexes_indexes (h first (by simp)) (h second (by simp))
      (head_indexChars (endsWord_iff.1 ends).1)) inner
    have hvalue : "." ++ first ++ "." ++ second =
        String.ofList ('.' :: (first.toList ++ '.' :: second.toList)) := by
      simp [← String.toList_inj]
    rw [indexSymbols, hvalue]
    simpa [indexChars] using this

theorem isNumeral_of_indexes {indexes : List String} (h : ∀ index ∈ indexes, IsIndex index) :
    ∀ index ∈ indexes, IsNumeral index.toList :=
  fun index mem => .of_isDigit (h index mem).toList_ne_nil (h index mem).isDigit

/-- A name before a path of indexes. -/
theorem Spells.word_indexes {name : String} {indexes : List String} (word : IsWord keywords name)
    (h : ∀ index ∈ indexes, IsIndex index) :
    Spells keywords (name.toList ++ indexChars indexes) (.word name :: indexSymbols indexes) := by
  intro rest more ends scans
  rw [List.append_assoc]
  exact .token (lexes_word word (head_indexChars (endsWord_iff.1 ends).1))
    (Spells.indexes (isNumeral_of_indexes h) rest more ends scans)

-- ============================================================================
-- Operators
-- ============================================================================

theorem endsOperator_append {text : List Char} (nonempty : text ≠ []) (rest : List Char) :
    endsOperator (text ++ rest) = endsOperator text := by
  obtain ⟨c, tail, rfl⟩ := List.exists_cons_of_ne_nil nonempty
  rfl

/-- An operator ends whatever stands before it, unless it is a word. -/
theorem endsWord_operator {symbol : String} (shape : IsOperator keywords symbol)
    (notWord : isWordOperator symbol = false) (rest : List Char) :
    endsWord (symbol.toList ++ rest) = true := by
  obtain ⟨c, tail, hsymbol, hc⟩ := shape.head
  rw [hsymbol, List.cons_append]
  have punctuation : Token.isLoneOperator c = true ∨ Token.isPairStart c = true := by
    rcases hc with hc | hc | hc
    · exact .inl hc
    · exact .inr hc
    · simp [isWordOperator, hsymbol, hc] at notWord
  rcases punctuation with hc | hc
  · simp only [Token.isLoneOperator, List.contains_iff_mem, List.mem_cons, List.not_mem_nil,
      or_false] at hc
    rcases hc with rfl | rfl | rfl | rfl | rfl | rfl | rfl | rfl | rfl <;>
      exact endsWord_cons (by decide) (by decide)
  · simp only [Token.isPairStart, List.contains_iff_mem, List.mem_cons, List.not_mem_nil,
      or_false] at hc
    rcases hc with rfl | rfl | rfl | rfl | rfl | rfl <;>
      exact endsWord_cons (by decide) (by decide)

theorem lexes_spaced {symbol : String} (shape : IsOperator keywords symbol) (rest : List Char) :
    Lexes keywords (symbol.toList ++ ' ' :: rest) (.operator symbol) (' ' :: rest) :=
  lexes_operator shape (fun _ => by rw [List.head?_cons, Option.any_some]; decide)
    (fun _ => by rw [endsOperator, List.head?_cons, Option.any_some]; decide)

/-- An operator between spaces, or without them where it is no word. -/
theorem Spells.binary {symbol : String} {left right : String} {first second : List Symbol}
    (shape : IsOperator keywords symbol) (hleft : Spells keywords left.toList first)
    (hright : Spells keywords right.toList second) (nonempty : right.toList ≠ [])
    (apart : endsOperator right.toList = true) (spacing : Spacing) :
    Spells keywords
      (if spacing = .expanded ∨ isWordOperator symbol then left ++ " " ++ symbol ++ " " ++ right
        else left ++ symbol ++ right).toList
      (first ++ .operator symbol :: second) := by
  intro rest more ends scans
  have inner := hright rest more ends scans
  split
  · have := hleft _ _ (endsWord_cons (by decide) (by decide))
      (scans_space (.token (lexes_spaced shape _) (scans_space inner)))
    simpa using this
  · rename_i dense
    have notWord : isWordOperator symbol = false := by
      simpa using fun h => dense (.inr h)
    have operator : Lexes keywords (symbol.toList ++ (right.toList ++ rest)) (.operator symbol)
        (right.toList ++ rest) :=
      lexes_operator shape (fun h => by rw [notWord] at h; cases h)
        (fun _ => by rw [endsOperator_append nonempty, apart])
    have := hleft _ _ (endsWord_operator shape notWord _) (.token operator inner)
    simpa using this

theorem Spells.unary {symbol : String} {operand : String} {symbols : List Symbol}
    (shape : IsOperator keywords symbol) (h : Spells keywords operand.toList symbols)
    (nonempty : operand.toList ≠ []) (apart : endsOperator operand.toList = true) :
    Spells keywords
      (if isWordOperator symbol then symbol ++ " " ++ operand else symbol ++ operand).toList
      (.operator symbol :: symbols) := by
  intro rest more ends scans
  have inner := h rest more ends scans
  split
  · have := Scans.token (lexes_spaced shape _) (scans_space inner)
    simpa using this
  · rename_i notWord
    have operator : Lexes keywords (symbol.toList ++ (operand.toList ++ rest))
        (.operator symbol) (operand.toList ++ rest) :=
      lexes_operator shape (fun h => absurd h notWord)
        (fun _ => by rw [endsOperator_append nonempty, apart])
    have := Scans.token operator inner
    simpa using this

-- ============================================================================
-- Sequences
-- ============================================================================

theorem scans_separator (spacing : Spacing) {rest : List Char} {symbols : List Symbol}
    (h : Scans keywords rest symbols) :
    Scans keywords ((separator spacing).toList ++ rest) (.operator "," :: symbols) := by
  cases spacing with
  | dense => exact .token (.lone (by decide)) h
  | expanded => exact .token (.lone (by decide)) (scans_space h)

theorem endsWord_separator (spacing : Spacing) (rest : List Char) :
    endsWord ((separator spacing).toList ++ rest) = true := by
  cases spacing <;> exact endsWord_cons (by decide) (by decide)

theorem endsWord_bracket {c : Char} (h : Token.isBracketChar c = true) (rest : List Char) :
    endsWord (c :: rest) = true := by
  simp only [Token.isBracketChar, List.contains_iff_mem, List.mem_cons, List.not_mem_nil,
    or_false] at h
  rcases h with rfl | rfl | rfl | rfl | rfl | rfl <;>
    exact endsWord_cons (by decide) (by decide)

theorem Spells.sequence {grammar : Grammar} {spacing : Spacing} {exprs : List Expr}
    (h : ∀ expr ∈ exprs, Spells keywords (render grammar spacing expr).toList
      (spell grammar expr [])) :
    Spells keywords ((separator spacing).intercalate (renderAll grammar spacing exprs)).toList
      ([.operator ","].intercalate (spellAll grammar exprs)) := by
  induction exprs with
  | nil => exact .nil
  | cons first exprs ih =>
    cases exprs with
    | nil =>
      simp only [renderAll, spellAll, String.intercalate_singleton, List.intercalate_singleton]
      exact h first List.mem_cons_self
    | cons second exprs =>
      intro rest more ends scans
      have inner := ih (fun expr hexpr => h expr (List.mem_cons_of_mem _ hexpr)) rest more ends
        scans
      have := h first List.mem_cons_self _ _ (endsWord_separator spacing _)
        (scans_separator spacing inner)
      simp only [renderAll, spellAll, String.intercalate_cons_cons,
        List.intercalate_cons_cons] at this ⊢
      simpa using this

/-- A sequence in brackets with a path of indexes after it. -/
theorem Spells.brackets (opening closing : Char) {text : List Char} {symbols : List Symbol}
    {indexes : List String} (hopening : Token.isBracketChar opening = true)
    (hclosing : Token.isBracketChar closing = true) (h : Spells keywords text symbols)
    (path : ∀ index ∈ indexes, IsIndex index) :
    Spells keywords (opening :: (text ++ closing :: indexChars indexes))
      (.bracket (String.ofList [opening]) ::
        (symbols ++ .bracket (String.ofList [closing]) :: indexSymbols indexes)) := by
  intro rest more ends scans
  have ending := endsWord_bracket hclosing (indexChars indexes ++ rest)
  have inner := h _ _ ending
    (.token (.bracket hclosing) (Spells.indexes (isNumeral_of_indexes path) rest more ends scans))
  have := Scans.token (.bracket hopening) inner
  simpa using this

/-- A word after a point. -/
theorem Spells.point {name : String} {text : List Char} {symbols : List Symbol}
    (word : IsWord keywords name) (h : Spells keywords (name.toList ++ text) symbols) :
    Spells keywords ('.' :: (name.toList ++ text)) (.operator "." :: symbols) := by
  obtain ⟨c, tail, hname, opens, -⟩ := word
  intro rest more ends scans
  refine .token (.point ?_) (h rest more ends scans)
  simp [hname, not_isDigit_of_isWordStart opens]

theorem endsWord_point {name : String} (word : IsWord keywords name) (rest : List Char) :
    endsWord ('.' :: (name.toList ++ rest)) = true := by
  obtain ⟨c, tail, hname, opens, -⟩ := word
  have part : isWordPart '.' = false := by decide
  simp [endsWord, part, hname, not_isDigit_of_isWordStart opens]

-- ============================================================================
-- Trees
-- ============================================================================

/-- Whether a text starts with a character that does not complete an operator. -/
def Opens (text : List Char) : Prop :=
  text ≠ [] ∧ endsOperator text = true

theorem Opens.append {text : List Char} (h : Opens text) (rest : List Char) :
    Opens (text ++ rest) :=
  ⟨by simp [h.1], by rw [endsOperator_append h.1, h.2]⟩

theorem Opens.parenthesise {text : String} (wrapped : Bool) (h : Opens text.toList) :
    Opens (parenthesise wrapped text).toList := by
  cases wrapped with
  | false => exact h
  | true =>
    have : (Expr.parenthesise true text).toList = '(' :: (text.toList ++ [')']) := by
      simp [Expr.parenthesise]
    rw [this]
    exact ⟨by simp, by rw [endsOperator, List.head?_cons, Option.any_some]; decide⟩

theorem Opens.of_graphic {c : Char} {rest : List Char} (h : Token.isPairEnd c = false) :
    Opens (c :: rest) :=
  ⟨by simp, by simp [endsOperator, h]⟩

theorem Opens.word {name : String} (h : IsWord keywords name) : Opens name.toList := by
  obtain ⟨c, rest, hname, opens, -⟩ := h
  rw [hname]
  refine .of_graphic ?_
  have ne {d : Char} (hd : isWordStart d = false) : c ≠ d := ne_of_isWordStart opens hd
  simp [Token.isPairEnd, ne (d := '&') (by decide), ne (d := '|') (by decide),
    ne (d := '=') (by decide)]

theorem Opens.digit {c : Char} {rest : List Char} (h : c.isDigit = true) : Opens (c :: rest) := by
  refine .of_graphic ?_
  have ne {d : Char} (hd : d.isDigit = false) : c ≠ d := by
    rintro rfl
    rw [h] at hd
    cases hd
  simp [Token.isPairEnd, ne (d := '&') (by decide), ne (d := '|') (by decide),
    ne (d := '=') (by decide)]

/-- The decimal text of an integer that is not negative. -/
theorem toList_toString_toInt {value : Int64} (h : 0 ≤ value.toInt) :
    ∃ number, (toString value.toInt).toList = Nat.toDigits 10 number := by
  obtain ⟨number, hnumber⟩ := Int.eq_ofNat_of_zero_le h
  exact ⟨number, by rw [hnumber]; exact Nat.toList_repr⟩

theorem isWord_constant {name : String} (h : name ∈ ["true", "false", "nil", "inf"]) :
    IsWord Token.standardKeywords name := by
  simp only [List.mem_cons, List.not_mem_nil, or_false] at h
  rcases h with rfl | rfl | rfl | rfl <;>
    exact ⟨_, _, rfl, by decide, List.all_eq_true.1 (by decide), by decide⟩

/-- The text of a positive float is a number with a point, or a word. -/
theorem floatText_cases {value : Float} (positive : Binary64.isPositive value = true) :
    (∃ whole fraction, (floatLayout.text value).toList = whole ++ '.' :: fraction ∧
      Decimal.IsPart whole ∧ Decimal.IsPart fraction ∧
        floatSymbol value = .number (floatLayout.text value)) ∨
      floatLayout.text value = "inf" ∧ floatSymbol value = .word "inf" := by
  rcases Binary64.cases_of_isPositive positive with ⟨significand, scale, hread⟩ | hread
  · obtain ⟨whole, fraction, htext, hwhole, hfraction, -⟩ := exists_floatText hread
    exact .inl ⟨whole, fraction, htext, hwhole, hfraction,
      by simp [floatSymbol, Binary64.isFinite, hread]⟩
  · have htext : floatLayout.text value = "inf" := by simp [Decimal.Layout.text, hread]
    exact .inr ⟨htext, by simp [floatSymbol, Binary64.isFinite, hread, htext]⟩

theorem opens_floatText {value : Float} (positive : Binary64.isPositive value = true) :
    Opens (floatLayout.text value).toList := by
  rcases floatText_cases positive with ⟨whole, fraction, htext, hwhole, -⟩ | ⟨htext, -⟩
  · obtain ⟨c, rest, rfl⟩ := List.exists_cons_of_ne_nil hwhole.1
    rw [htext]
    exact .digit (hwhole.2 c (by simp))
  · rw [htext]
    exact .word (isWord_constant (by simp))

theorem opens_toString {value : Int64} (positive : 0 ≤ value.toInt) :
    Opens (toString value.toInt).toList := by
  obtain ⟨number, hnumber⟩ := toList_toString_toInt positive
  obtain ⟨c, digits, hdigits, hc, -⟩ := exists_decimal_cons number
  rw [hnumber, hdigits]
  exact .digit hc

theorem opens_render {grammar : Grammar} {spacing : Spacing} {expr : Expr}
    (h : Spellable grammar Token.standardKeywords expr) :
    Opens (render grammar spacing expr).toList := by
  induction h with
  | @unary symbol operand known shape apart inner ih =>
    have := Opens.append ⟨shape.toList_ne_nil, apart⟩
    rw [render]
    split
    · simpa using this _
    · simpa using this _
  | binary known shape first second ih _ =>
    rw [render]
    split
    · simpa using (ih.parenthesise _).append _
    · simpa using (ih.parenthesise _).append _
  | methodCall separates owner word each ih =>
    rw [render]
    simpa using (ih.parenthesise _).append _
  | call separates word each ih =>
    rw [render]
    simpa using (Opens.word word.1).append _
  | property owner part ih =>
    rw [render]
    simpa using (ih.parenthesise _).append _
  | identifier word => exact .word word.1
  | @bool value =>
    rw [render]
    cases value
    · exact .word (isWord_constant (by simp))
    · exact .word (isWord_constant (by simp))
  | nil =>
    rw [render]
    exact .word (isWord_constant (by simp))
  | float positive =>
    rw [render]
    exact opens_floatText positive
  | int positive =>
    rw [render]
    exact opens_toString positive
  | text =>
    rw [render, textLiteral, String.toList_ofList]
    exact .of_graphic (by decide)
  | list separates each ih =>
    rw [render]
    simpa using .of_graphic (c := '[') (by decide)

-- ============================================================================
-- The symbols of a printed tree
-- ============================================================================

section Rendered

variable {grammar : Grammar} {spacing : Spacing}

/-- `Rendered grammar spacing expr`: the text of the tree, with a path of indexes after it
    where a part can follow, is scanned to the symbols of the tree and of the path. -/
def Rendered (grammar : Grammar) (spacing : Spacing) (expr : Expr) : Prop :=
  ∀ indexes, indexes = [] ∨ takesParts expr = true → (∀ index ∈ indexes, IsIndex index) →
    Spells Token.standardKeywords ((render grammar spacing expr).toList ++ indexChars indexes)
      (spell grammar expr indexes)

theorem Rendered.spells {expr : Expr} (h : Rendered grammar spacing expr) :
    Spells Token.standardKeywords (render grammar spacing expr).toList (spell grammar expr []) := by
  have := h [] (.inl rfl) (by simp)
  rwa [indexChars, List.flatMap_nil, List.append_nil] at this

/-- Only a tree that takes parts has a path after it. -/
theorem Rendered.of_plain {expr : Expr} (plain : takesParts expr = false)
    (h : Spells Token.standardKeywords (render grammar spacing expr).toList
      (spell grammar expr [])) : Rendered grammar spacing expr := by
  intro indexes takes path
  obtain rfl := takes.resolve_right (by simp [plain])
  rw [indexChars, List.flatMap_nil, List.append_nil]
  exact h

theorem Rendered.sequence {exprs : List Expr}
    (h : ∀ expr ∈ exprs, Rendered grammar spacing expr) :
    Spells Token.standardKeywords
      ((separator spacing).intercalate (renderAll grammar spacing exprs)).toList
      ([.operator ","].intercalate (spellAll grammar exprs)) :=
  .sequence fun expr hexpr => (h expr hexpr).spells

theorem Rendered.unary {symbol : String} {operand : Expr}
    (shape : IsOperator Token.standardKeywords symbol) (h : Rendered grammar spacing operand)
    (opens : Opens (render grammar spacing operand).toList) :
    Rendered grammar spacing (.unary symbol operand) := by
  refine .of_plain rfl ?_
  have hopens (wrapped : Bool) := opens.parenthesise wrapped
  rw [render, spell, indexSymbols, List.append_nil]
  exact .unary shape (h.spells.wrap _) (hopens _).1 (hopens _).2

theorem Rendered.binary {symbol : String} {left right : Expr}
    (shape : IsOperator Token.standardKeywords symbol) (hleft : Rendered grammar spacing left)
    (hright : Rendered grammar spacing right)
    (opens : Opens (render grammar spacing right).toList) :
    Rendered grammar spacing (.binary symbol left right) := by
  refine .of_plain rfl ?_
  have hopens (wrapped : Bool) := opens.parenthesise wrapped
  rw [render, spell, indexSymbols, List.append_nil]
  exact .binary shape (hleft.spells.wrap _) (hright.spells.wrap _) (hopens _).1 (hopens _).2 _

theorem Rendered.methodCall {receiver : Expr} {name : String} {arguments : List Expr}
    (h : Rendered grammar spacing receiver) (word : IsWord Token.standardKeywords name)
    (each : ∀ argument ∈ arguments, Rendered grammar spacing argument) :
    Rendered grammar spacing (.methodCall receiver name arguments) := by
  intro indexes _ path
  have tail := (Spells.word word).append
    (.brackets '(' ')' (by decide) (by decide) (Rendered.sequence each) path)
    (fun rest => endsWord_cons (by decide) (by decide))
  have := (h.spells.wrap (!takesParts receiver)).append (.point word tail)
    (fun rest => by simpa using endsWord_point word _)
  rw [render_methodCall, render, spell]
  simpa using this

theorem Rendered.call {name : String} {arguments : List Expr}
    (word : IsWord Token.standardKeywords name)
    (each : ∀ argument ∈ arguments, Rendered grammar spacing argument) :
    Rendered grammar spacing (.call name arguments) := by
  intro indexes _ path
  have := (Spells.word word).append
    (.brackets '(' ')' (by decide) (by decide) (Rendered.sequence each) path)
    (fun rest => endsWord_cons (by decide) (by decide))
  rw [render, spell]
  simpa using this

theorem Rendered.list {items : List Expr}
    (each : ∀ item ∈ items, Rendered grammar spacing item) :
    Rendered grammar spacing (.list items) := by
  intro indexes _ path
  have := Spells.brackets '[' ']' (by decide) (by decide) (Rendered.sequence each) path
  rw [render, spell]
  simpa using this

theorem Rendered.property_word {receiver : Expr} {name : String}
    (h : Rendered grammar spacing receiver) (word : IsWord Token.standardKeywords name) :
    Rendered grammar spacing (.property receiver name) := by
  intro indexes _ path
  have := (h.spells.wrap (!takesParts receiver)).append
    (.point word (.word_indexes word path)) (fun rest => by simpa using endsWord_point word _)
  rw [render, spell_property_word word.not_isIndexName]
  simpa using this

theorem isIndexName_of_isIndex {name : String} (index : IsIndex name) :
    isIndexName name = true := by
  obtain ⟨c, tail, hname⟩ := List.exists_cons_of_ne_nil index.toList_ne_nil
  rw [isIndexName, hname, List.head?_cons, Option.any_some]
  exact index.isDigit c (by simp [hname])

/-- An index joins the path after it. -/
theorem Rendered.property_index {receiver : Expr} {name : String}
    (h : Rendered grammar spacing receiver) (index : IsIndex name) :
    Rendered grammar spacing (.property receiver name) := by
  intro indexes _ path
  have hpath : ∀ other ∈ name :: indexes, IsIndex other := by simpa using ⟨index, path⟩
  rw [render, spell, if_pos (isIndexName_of_isIndex index)]
  split
  · rename_i parts
    have := h _ (.inr parts) hpath
    simpa [parts, Expr.parenthesise, indexChars] using this
  · rename_i noParts
    intro rest more ends scans
    have := h.spells.parenthesised
      (Spells.indexes (isNumeral_of_indexes hpath) rest more ends scans)
    simpa [noParts, indexChars] using this

theorem Rendered.bool (value : Bool) : Rendered grammar spacing (.bool value) := by
  refine .of_plain rfl ?_
  rw [render, spell]
  cases value
  · exact .word (isWord_constant (by simp))
  · exact .word (isWord_constant (by simp))

theorem Rendered.float {bits : UInt64} (positive : Binary64.isPositive (.ofBits bits) = true) :
    Rendered grammar spacing (.float bits) := by
  refine .of_plain rfl ?_
  rw [render, spell, indexSymbols]
  rcases floatText_cases positive with ⟨whole, fraction, htext, hwhole, hfraction, hsymbol⟩ |
    ⟨htext, hsymbol⟩
  · intro rest more ends scans
    have lexes := @lexes_decimal Token.standardKeywords _ _ _ hwhole.1 hwhole.2 hfraction.1
      hfraction.2 (endsWord_iff.1 ends).1
    rw [← htext, String.ofList_toList] at lexes
    rw [hsymbol, htext]
    simpa using Scans.token lexes scans
  · rw [hsymbol, htext]
    exact .word (isWord_constant (by simp))

theorem Rendered.int {value : Int64} (positive : 0 ≤ value.toInt) :
    Rendered grammar spacing (.int value) := by
  refine .of_plain rfl fun rest more ends scans => ?_
  obtain ⟨number, hnumber⟩ := toList_toString_toInt positive
  have lexes := @lexes_integer Token.standardKeywords (Nat.toDigits 10 number) _
    Nat.toDigits_ne_nil (fun d hd => isDigit_of_mem_decimal hd) ends
  rw [← hnumber, String.ofList_toList] at lexes
  rw [render, spell]
  exact .token lexes scans

theorem rendered_of_spellable {expr : Expr}
    (h : Spellable grammar Token.standardKeywords expr) : Rendered grammar spacing expr := by
  induction h with
  | unary _ shape _ inner ih => exact .unary shape ih (opens_render inner)
  | binary _ shape _ second ihLeft ihRight =>
    exact .binary shape ihLeft ihRight (opens_render second)
  | methodCall _ _ word _ ih ihArguments => exact .methodCall ih word ihArguments
  | call _ word _ ih => exact .call word.1 ih
  | property _ part ih =>
    rcases part with word | index
    · exact .property_word ih word
    · exact .property_index ih index
  | @identifier name word =>
    intro indexes _ path
    rw [render, spell]
    exact .word_indexes word.1 path
  | @bool value => exact .bool value
  | nil =>
    refine .of_plain rfl ?_
    rw [render, spell]
    exact .word (isWord_constant (by simp))
  | float positive => exact .float positive
  | int positive => exact .int positive
  | @text value =>
    refine .of_plain rfl fun rest more _ scans => ?_
    rw [render, spell]
    exact .token (lexes_textLiteral value rest) scans
  | list _ _ ih => exact .list ih

/-- The text of a tree is scanned to the symbols of the tree. -/
theorem scans_render {expr : Expr} (h : Spellable grammar Token.standardKeywords expr)
    (spacing : Spacing) :
    Scans Token.standardKeywords (render grammar spacing expr).toList (spell grammar expr []) := by
  have rendered : Rendered grammar spacing expr := rendered_of_spellable h
  have := rendered.spells [] [] rfl .nil
  rwa [List.append_nil, List.append_nil] at this

end Rendered

end ExprMachine
