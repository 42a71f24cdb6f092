/-
  ExprMachine.Proofs.Expr.Joining

  Pieces of printed text that are joined: what leads to an operand, what follows one, and
  a path of indexes behind a printed tree. Only an integer does not end before such a path,
  since it takes the first index for its fraction.
-/
import ExprMachine.Proofs.Expr.Enclosing

namespace ExprMachine

open ExprMachine.Expr Lexeme Reading

variable {keywords : List String} {text more : List Char} {first second symbols : List Symbol}

-- ============================================================================
-- Text before an operand
-- ============================================================================

/-- `Leads keywords text symbols`: the text is scanned to the symbols, whatever comes next that
    does not complete an operator. -/
def Leads (keywords : List String) (text : List Char) (symbols : List Symbol) : Prop :=
  ∀ rest more, endsOperator rest = true → Scans keywords rest more →
    Scans keywords (text ++ rest) (symbols ++ more)

namespace Leads

theorem nil : Leads keywords [] [] := fun _ _ _ scans => scans

theorem scans (h : Leads keywords text symbols) : Scans keywords text symbols := by
  simpa using h [] [] rfl .nil

theorem append (h : Leads keywords text first) (hmore : Leads keywords more second)
    (apart : ∀ rest, endsOperator rest = true → endsOperator (more ++ rest) = true) :
    Leads keywords (text ++ more) (first ++ second) := by
  intro rest others ends scans
  have := h _ _ (apart rest ends) (hmore rest others ends scans)
  simpa using this

/-- Behind text that ends where it has to. -/
theorem behind (h : Spells keywords text first) (hmore : Leads keywords more second)
    (ends : ∀ rest, endsWord (more ++ rest) = true) :
    Leads keywords (text ++ more) (first ++ second) := by
  intro rest others apart scans
  have := h _ _ (ends rest) (hmore rest others apart scans)
  simpa using this

theorem bracket {c : Char} (h : Token.isBracketChar c = true) :
    Leads keywords [c] [.bracket (String.ofList [c])] :=
  fun _ _ _ scans => .token (.bracket h) scans

/-- A prefix operator, with a space if it is a word. -/
theorem unary {symbol : String} (shape : IsOperator keywords symbol) :
    Leads keywords (if isWordOperator symbol then symbol.toList ++ [' '] else symbol.toList)
      [.operator symbol] := by
  intro rest others apart scans
  split
  · rw [List.append_assoc]
    exact .token (lexes_spaced shape rest) (scans_space scans)
  · rename_i notWord
    exact .token (lexes_operator shape (fun h => absurd h notWord) fun _ => apart) scans

/-- A name before its arguments. -/
theorem call {name : String} (word : IsWord keywords name) :
    Leads keywords (name.toList ++ ['(']) [.word name, .bracket "("] :=
  .behind (.word word) (.bracket (by decide)) fun rest => endsWord_bracket (by decide) rest

/-- The name of a method before its arguments. -/
theorem method {name : String} (word : IsWord keywords name) :
    Leads keywords ('.' :: (name.toList ++ ['('])) [.operator ".", .word name, .bracket "("] := by
  obtain ⟨c, tail, hname, opens, -⟩ := id word
  intro rest others apart scans
  refine .token (.point ?_) (call word rest others apart scans)
  simp [hname, not_isDigit_of_isWordStart opens]

theorem separator (spacing : Spacing) :
    Leads keywords (Expr.separator spacing).toList [.operator ","] :=
  fun _ _ _ scans => scans_separator spacing scans

/-- An operand that text leads to. -/
theorem spells (h : Leads keywords text first) (hmore : Spells keywords more second)
    (opens : Opens more) : Spells keywords (text ++ more) (first ++ second) := by
  intro rest others ends scans
  have := h _ _ (opens.append rest).2 (hmore rest others ends scans)
  simpa using this

end Leads

/-- Text that stands before a parenthesis completes no operator if it does not with it. -/
theorem endsOperator_of_before {front back : List Char}
    (h : endsOperator (front ++ '(' :: back) = true) (rest : List Char)
    (apart : endsOperator rest = true) : endsOperator (front ++ rest) = true := by
  cases front with
  | nil => exact apart
  | cons c front => exact h

-- ============================================================================
-- Text after an operand
-- ============================================================================

/-- `Follows keywords text symbols`: the text is scanned to the symbols wherever a word or a
    number would end that stands before what comes next, and there one would end before it. -/
structure Follows (keywords : List String) (text : List Char) (symbols : List Symbol) : Prop where
  spells : Spells keywords text symbols
  ends : ∀ rest, endsWord rest = true → endsWord (text ++ rest) = true

namespace Follows

theorem nil : Follows keywords [] [] := ⟨.nil, fun _ ends => ends⟩

theorem append (h : Follows keywords text first) (hmore : Follows keywords more second) :
    Follows keywords (text ++ more) (first ++ second) where
  spells := by
    intro rest others ends scans
    have := h.spells _ _ (hmore.ends rest ends) (hmore.spells rest others ends scans)
    simpa using this
  ends := by
    intro rest ends
    rw [List.append_assoc]
    exact h.ends _ (hmore.ends rest ends)

theorem bracket {c : Char} (h : Token.isBracketChar c = true) (inner : Spells keywords text first) :
    Follows keywords (c :: text) (.bracket (String.ofList [c]) :: first) where
  spells := fun rest others ends scans => .token (.bracket h) (inner rest others ends scans)
  ends := fun rest _ => endsWord_bracket h (text ++ rest)

theorem point {name : String} (word : IsWord keywords name)
    (h : Spells keywords (name.toList ++ text) first) :
    Follows keywords ('.' :: (name.toList ++ text)) (.operator "." :: first) where
  spells := .point word h
  ends := fun rest _ => by simpa using endsWord_point word (text ++ rest)

theorem separator (spacing : Spacing) (h : Spells keywords text first) :
    Follows keywords ((Expr.separator spacing).toList ++ text) (.operator "," :: first) where
  spells := by
    intro rest others ends scans
    rw [List.append_assoc]
    exact scans_separator spacing (h rest others ends scans)
  ends := by
    intro rest _
    rw [List.append_assoc]
    exact endsWord_separator spacing _

end Follows

/-- `Behind keywords text symbols`: a path of indexes, and text that follows it. -/
def Behind (keywords : List String) (text : List Char) (symbols : List Symbol) : Prop :=
  ∃ path tail others, (∀ index ∈ path, IsIndex index) ∧ text = indexChars path ++ tail ∧
    symbols = indexSymbols path ++ others ∧ Follows keywords tail others

namespace Behind

theorem path {indexes : List String} (h : ∀ index ∈ indexes, IsIndex index) :
    Behind keywords (indexChars indexes) (indexSymbols indexes) :=
  ⟨indexes, [], [], h, by simp, by simp, .nil⟩

theorem append (h : Behind keywords text first) (hmore : Follows keywords more second) :
    Behind keywords (text ++ more) (first ++ second) := by
  obtain ⟨path, tail, others, isIndex, rfl, rfl, follows⟩ := h
  exact ⟨path, tail ++ more, others ++ second, isIndex, by simp, by simp, follows.append hmore⟩

end Behind

-- ============================================================================
-- Infix operators
-- ============================================================================

namespace Expr

/-- An infix operator with the spaces around it. -/
def operatorChars (spacing : Spacing) (symbol : String) : List Char :=
  if spacing = .expanded ∨ isWordOperator symbol then ' ' :: (symbol.toList ++ [' '])
  else symbol.toList

theorem toList_render_binary {grammar : Grammar} (spacing : Spacing) (symbol : String)
    (left right : Expr) :
    (render grammar spacing (.binary symbol left right)).toList =
      (parenthesise (wrapsBeside grammar (binaryPriority grammar symbol)
        (groupsRight grammar symbol) left) (render grammar spacing left)).toList ++
      (operatorChars spacing symbol ++
        (parenthesise (wrapsBeside grammar (binaryPriority grammar symbol)
          (!groupsRight grammar symbol) right) (render grammar spacing right)).toList) := by
  rw [render, operatorChars]
  split <;> simp

theorem toList_render_unary {grammar : Grammar} (spacing : Spacing) (symbol : String)
    (operand : Expr) :
    (render grammar spacing (.unary symbol operand)).toList =
      (if isWordOperator symbol then symbol.toList ++ [' '] else symbol.toList) ++
        (parenthesise (wrapsUnder grammar (unaryPriority grammar symbol) operand)
          (render grammar spacing operand)).toList := by
  rw [render]
  split <;> simp

end Expr

theorem endsWord_operatorChars {symbol : String} (shape : IsOperator keywords symbol)
    (spacing : Spacing) (rest : List Char) :
    endsWord (operatorChars spacing symbol ++ rest) = true := by
  unfold operatorChars
  split
  · exact endsWord_cons (by decide) (by decide)
  · rename_i dense
    have notWord : isWordOperator symbol = false := by
      simpa using fun h => dense (.inr h)
    exact endsWord_operator shape notWord rest

theorem Leads.binary {symbol : String} (shape : IsOperator keywords symbol) (spacing : Spacing) :
    Leads keywords (operatorChars spacing symbol) [.operator symbol] := by
  intro rest others apart scans
  unfold operatorChars
  split
  · have := scans_space (.token (lexes_spaced shape _) (scans_space scans))
    simpa using this
  · rename_i dense
    refine .token (lexes_operator shape (fun h => absurd (.inr h) dense) fun _ => apart) scans

theorem Follows.binary {symbol : String} (shape : IsOperator keywords symbol) (spacing : Spacing)
    (h : Spells keywords text first) (opens : Opens text) :
    Follows keywords (operatorChars spacing symbol ++ text) (.operator symbol :: first) where
  spells := (Leads.binary shape spacing).spells h opens
  ends := by
    intro rest _
    rw [List.append_assoc]
    exact endsWord_operatorChars shape spacing _

-- ============================================================================
-- Trees with an index behind them
-- ============================================================================

/-- Whether a printed tree ends in an integer, which would take an index behind it for its
    fraction. -/
def Expr.endsInInt (grammar : Grammar) : Expr → Bool
  | .unary symbol operand =>
    !wrapsUnder grammar (unaryPriority grammar symbol) operand && endsInInt grammar operand
  | .binary symbol _ right =>
    !wrapsBeside grammar (binaryPriority grammar symbol) (!groupsRight grammar symbol) right &&
      endsInInt grammar right
  | .int _ => true
  | _ => false

section Path

variable {grammar : Grammar} {spacing : Spacing} {expr : Expr} {path : List String}
  {related : List Symbol → List Symbol → Prop}

/-- Symbols of the same outline. -/
def SameOutline (others symbols : List Symbol) : Prop :=
  outline others = outline symbols

/-- Symbols with less to count. -/
def Smaller (others symbols : List Symbol) : Prop :=
  size (outline others) < size (outline symbols)

/-- What the symbols of a text with a path of indexes behind it are to the symbols that the
    text and the path have each for itself. -/
def MeetsPath (related : List Symbol → List Symbol → Prop) (path : List String) (text : List Char)
    (symbols : List Symbol) : Prop :=
  ∃ others, Spells Token.standardKeywords (text ++ indexChars path) others ∧
    related others (symbols ++ indexSymbols path)

namespace MeetsPath

/-- Text in parentheses meets no path. -/
theorem parenthesised {printed : String} (isIndex : ∀ index ∈ path, IsIndex index)
    (h : Spells Token.standardKeywords printed.toList symbols) :
    MeetsPath (· = ·) path (parenthesise true printed).toList (wrap true symbols) := by
  refine ⟨wrap true symbols ++ indexSymbols path, fun rest more ends scans => ?_, rfl⟩
  have := h.parenthesised (Spells.indexes (isNumeral_of_indexes isIndex) rest more ends scans)
  simpa using this

/-- A symbol that ends before whatever is no part of a word meets no path. -/
theorem symbol {symbol : Symbol} (isIndex : ∀ index ∈ path, IsIndex index)
    (lexes : ∀ rest, rest.head?.any isWordPart = false →
      Lexes Token.standardKeywords (text ++ rest) symbol rest) :
    MeetsPath (· = ·) path text [symbol] := by
  refine ⟨symbol :: indexSymbols path, fun rest more ends scans => ?_, rfl⟩
  rw [List.append_assoc]
  exact .token (lexes _ (head_indexChars (endsWord_iff.1 ends).1))
    (Spells.indexes (isNumeral_of_indexes isIndex) rest more ends scans)

/-- An integer takes the index behind it for its fraction. -/
theorem int {value : Int64} (positive : 0 ≤ value.toInt)
    (isIndex : ∀ index ∈ path, IsIndex index) (nonempty : path ≠ []) :
    MeetsPath Smaller path
      (toString value.toInt).toList [.number (toString value.toInt)] := by
  obtain ⟨index, path, rfl⟩ := List.exists_cons_of_ne_nil nonempty
  obtain ⟨first, others⟩ := List.forall_mem_cons.1 isIndex
  obtain ⟨number, hnumber⟩ := toList_toString_toInt positive
  obtain ⟨c, digits, hdigits, hc, -⟩ := exists_decimal_cons number
  generalize toString value.toInt = lexeme at hnumber ⊢
  have counts (more : List Char) :
      (Symbol.number (String.ofList (lexeme.toList ++ more))).outline = [.leaf] := by
    have starts : (String.ofList (lexeme.toList ++ more)).toList = c :: (digits ++ more) := by
      rw [String.toList_ofList, hnumber, hdigits, List.cons_append]
    exact Symbol.outline_of_isDigit starts hc
  have whole := counts []
  rw [List.append_nil, String.ofList_toList] at whole
  refine ⟨.number (String.ofList (lexeme.toList ++ '.' :: index.toList)) :: indexSymbols path,
    fun rest more ends scans => ?_, ?_⟩
  · have behind := Spells.indexes (isNumeral_of_indexes others) rest more ends scans
    have lexes := @lexes_decimal Token.standardKeywords (Nat.toDigits 10 number) _ _
      Nat.toDigits_ne_nil (fun d hd => isDigit_of_mem_decimal hd) first.toList_ne_nil first.isDigit
      (@head_indexChars path rest (endsWord_iff.1 ends).1)
    rw [← hnumber] at lexes
    simpa [indexChars] using Scans.token lexes behind
  · show size (outline _) < size (outline _)
    rw [List.singleton_append, outline_cons, outline_cons, counts, whole,
      outline_indexSymbols others, outline_indexSymbols isIndex]
    simp [indexOutline]

theorem mono {stronger : List Symbol → List Symbol → Prop}
    (h : MeetsPath stronger path text symbols)
    (relates : ∀ others symbols, stronger others symbols → related others symbols) :
    MeetsPath related path text symbols := by
  obtain ⟨others, spells, strong⟩ := h
  exact ⟨others, spells, relates _ _ strong⟩

/-- Text that leads to an operand leaves the end of the operand as it is. -/
theorem lead (below : ∀ front others symbols, related others symbols →
      related (front ++ others) (front ++ symbols))
    (h : Leads Token.standardKeywords text first) (opens : Opens more)
    (meets : MeetsPath related path more second) :
    MeetsPath related path (text ++ more) (first ++ second) := by
  obtain ⟨others, spells, relates⟩ := meets
  refine ⟨first ++ others, ?_, ?_⟩
  · rw [List.append_assoc]
    exact h.spells spells (opens.append _)
  · rw [List.append_assoc]
    exact below _ _ _ relates

theorem unary (below : ∀ front others symbols, related others symbols →
      related (front ++ others) (front ++ symbols)) {symbol : String} {operand : Expr}
    (shape : IsOperator Token.standardKeywords symbol)
    (inner : Spellable grammar Token.standardKeywords operand)
    (meets : MeetsPath related path
      (parenthesise (wrapsUnder grammar (unaryPriority grammar symbol) operand)
        (render grammar spacing operand)).toList
      (wrap (wrapsUnder grammar (unaryPriority grammar symbol) operand)
        (spell grammar operand []))) :
    MeetsPath related path (render grammar spacing (.unary symbol operand)).toList
      (spell grammar (.unary symbol operand) []) := by
  rw [toList_render_unary, spell, indexSymbols, List.append_nil]
  exact .lead below (.unary shape) ((opens_render inner).parenthesise _) meets

theorem binary (below : ∀ front others symbols, related others symbols →
      related (front ++ others) (front ++ symbols)) {symbol : String} {left right : Expr}
    (shape : IsOperator Token.standardKeywords symbol)
    (hleft : Spellable grammar Token.standardKeywords left)
    (hright : Spellable grammar Token.standardKeywords right)
    (meets : MeetsPath related path
      (parenthesise (wrapsBeside grammar (binaryPriority grammar symbol)
        (!groupsRight grammar symbol) right) (render grammar spacing right)).toList
      (wrap (wrapsBeside grammar (binaryPriority grammar symbol) (!groupsRight grammar symbol)
        right) (spell grammar right []))) :
    MeetsPath related path (render grammar spacing (.binary symbol left right)).toList
      (spell grammar (.binary symbol left right) []) := by
  have rendered : Rendered grammar spacing left := rendered_of_spellable hleft
  have leads := Leads.behind (rendered.spells.wrap (wrapsBeside grammar
      (binaryPriority grammar symbol) (groupsRight grammar symbol) left))
    (.binary shape spacing) (endsWord_operatorChars shape spacing)
  have whole := lead below leads ((opens_render hright).parenthesise _) meets
  rw [toList_render_binary]
  simpa [spell, indexSymbols] using whole

/-- A literal of one token meets no path, unless it is an integer. -/
theorem literal (h : Spellable grammar Token.standardKeywords expr)
    (isIndex : ∀ index ∈ path, IsIndex index) (literal : expr.isLiteral = true)
    (noInt : endsInInt grammar expr = false) :
    MeetsPath (· = ·) path (render grammar spacing expr).toList (spell grammar expr []) := by
  cases h with
  | @bool value =>
    have word : IsWord Token.standardKeywords (if value then "true" else "false") :=
      isWord_constant (by cases value <;> decide)
    rw [render, spell]
    exact .symbol isIndex fun rest ends => lexes_word word ends
  | nil =>
    rw [render, spell]
    exact .symbol isIndex fun rest ends => lexes_word (isWord_constant (by decide)) ends
  | @float value positive =>
    rw [render, spell, indexSymbols]
    rcases floatText_cases positive with ⟨whole, fraction, htext, hwhole, hfraction, hsymbol⟩ |
      ⟨htext, hsymbol⟩
    · rw [hsymbol]
      refine .symbol isIndex fun rest ends => ?_
      have lexes := @lexes_decimal Token.standardKeywords _ _ _ hwhole.1 hwhole.2 hfraction.1
        hfraction.2 ends
      rw [← htext, String.ofList_toList] at lexes
      simpa [htext] using lexes
    · rw [hsymbol, htext]
      exact .symbol isIndex fun rest ends => lexes_word (isWord_constant (by decide)) ends
  | int => cases noInt
  | text =>
    rw [render, spell]
    exact .symbol isIndex fun rest _ => lexes_textLiteral _ rest
  | _ => cases literal

/-- A path of indexes behind a printed tree that does not end in an integer. -/
theorem of_endsInInt_eq_false (h : Spellable grammar Token.standardKeywords expr)
    (isIndex : ∀ index ∈ path, IsIndex index) (noInt : endsInInt grammar expr = false) :
    MeetsPath SameOutline path
      (render grammar spacing expr).toList (spell grammar expr []) := by
  have below (front others symbols : List Symbol) (same : SameOutline others symbols) :
      SameOutline (front ++ others) (front ++ symbols) := by
    rw [SameOutline, outline_append, outline_append, same]
  have outlined {text : List Char} {symbols : List Symbol}
      (h : MeetsPath (· = ·) path text symbols) :
      MeetsPath SameOutline path text symbols :=
    h.mono fun _ _ same => congrArg outline same
  have parts {expr : Expr} (h : Spellable grammar Token.standardKeywords expr)
      (takes : takesParts expr = true) :
      MeetsPath SameOutline path
        (render grammar spacing expr).toList (spell grammar expr []) := by
    refine ⟨_, rendered_of_spellable h path (.inr takes) isIndex, ?_⟩
    show outline _ = outline _
    rw [h.outline_spell isIndex, outline_append, outline_indexSymbols isIndex]
  have wrapped {expr : Expr} (wrapped : Bool) (h : Spellable grammar Token.standardKeywords expr)
      (bare : wrapped = false →
        MeetsPath SameOutline path
          (render grammar spacing expr).toList (spell grammar expr [])) :
      MeetsPath SameOutline path
        (parenthesise wrapped (render grammar spacing expr)).toList
          (wrap wrapped (spell grammar expr [])) := by
    cases wrapped with
    | false => exact bare rfl
    | true => exact outlined (.parenthesised isIndex (rendered_of_spellable h).spells)
  induction h with
  | unary _ shape _ inner ih =>
    exact .unary below shape inner (wrapped _ inner fun bare =>
      ih (by simpa [endsInInt, bare] using noInt))
  | binary _ shape first second _ ih =>
    exact .binary below shape first second (wrapped _ second fun bare =>
      ih (by simpa [endsInInt, bare] using noInt))
  | methodCall separates owner word each => exact parts (.methodCall separates owner word each) rfl
  | call separates word each => exact parts (.call separates word each) rfl
  | property owner part => exact parts (.property owner part) rfl
  | identifier word => exact parts (.identifier word) rfl
  | list separates each => exact parts (.list separates each) rfl
  | bool => exact outlined (.literal .bool isIndex rfl noInt)
  | nil => exact outlined (.literal .nil isIndex rfl noInt)
  | float positive => exact outlined (.literal (.float positive) isIndex rfl noInt)
  | int => cases noInt
  | text => exact outlined (.literal .text isIndex rfl noInt)

/-- A path of indexes behind a printed tree that ends in an integer. -/
theorem of_endsInInt (h : Spellable grammar Token.standardKeywords expr)
    (isIndex : ∀ index ∈ path, IsIndex index) (nonempty : path ≠ [])
    (ends : endsInInt grammar expr = true) :
    MeetsPath Smaller path
      (render grammar spacing expr).toList (spell grammar expr []) := by
  have below (front others symbols : List Symbol) (less : Smaller others symbols) :
      Smaller (front ++ others) (front ++ symbols) := by
    simp only [Smaller, outline_append, size_append] at less ⊢
    omega
  induction h with
  | unary _ shape _ inner ih =>
    rw [endsInInt, Bool.and_eq_true, Bool.not_eq_true'] at ends
    refine .unary below shape inner ?_
    rw [ends.1]
    exact ih ends.2
  | binary _ shape first second _ ih =>
    rw [endsInInt, Bool.and_eq_true, Bool.not_eq_true'] at ends
    refine .binary below shape first second ?_
    rw [ends.1]
    exact ih ends.2
  | int positive =>
    rw [render, spell]
    exact .int positive isIndex nonempty
  | _ => cases ends

end MeetsPath

end Path

end ExprMachine
