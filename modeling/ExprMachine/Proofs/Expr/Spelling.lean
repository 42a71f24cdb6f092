/-
  ExprMachine.Proofs.Expr.Spelling

  The symbols of a printed tree, which trees have printed symbols that the grammar can
  read, and how many levels open while it does. Indexes that follow each other are spelt
  in pairs, because the scanner takes `.0.1` for one number.
-/
import ExprMachine.Proofs.Binary64.Unpacked
import ExprMachine.Proofs.Expr.Layout
import ExprMachine.Proofs.Expr.Literals
import ExprMachine.Proofs.Token.Shapes

namespace ExprMachine

namespace Expr

-- ============================================================================
-- Symbols of a tree
-- ============================================================================

/-- Symbols with parentheses around them if need be. -/
def wrap (wrapped : Bool) (symbols : List Symbol) : List Symbol :=
  if wrapped then .bracket "(" :: (symbols ++ [.bracket ")"]) else symbols

/-- The symbols of a path of indexes. -/
def indexSymbols : List String → List Symbol
  | [] => []
  | [index] => [.number ("." ++ index)]
  | first :: second :: more => .number ("." ++ first ++ "." ++ second) :: indexSymbols more

/-- Whether the name of a part starts with a digit, as indexes do and words do not. -/
def isIndexName (name : String) : Bool :=
  name.toList.head?.any Char.isDigit

/-- The symbol of a float. What is not finite is spelt as a word. -/
def floatSymbol (value : Float) : Symbol :=
  if Binary64.isFinite value then .number (floatLayout.text value)
  else .word (floatLayout.text value)

mutual

/-- The symbols of a printed tree and of a path of indexes after it. -/
def spell (grammar : Grammar) : Expr → (indexes : List String) → List Symbol
  | .identifier name, indexes => .word name :: indexSymbols indexes
  | .bool value, indexes => .word (if value then "true" else "false") :: indexSymbols indexes
  | .nil, indexes => .word "nil" :: indexSymbols indexes
  | .int value, indexes => .number (toString value.toInt) :: indexSymbols indexes
  | .float bits, indexes => floatSymbol (.ofBits bits) :: indexSymbols indexes
  | .text value, indexes => .text value :: indexSymbols indexes
  | .list items, indexes =>
    .bracket "[" :: ([.operator ","].intercalate (spellAll grammar items) ++
      .bracket "]" :: indexSymbols indexes)
  | .call name arguments, indexes =>
    .word name :: .bracket "(" :: ([.operator ","].intercalate (spellAll grammar arguments) ++
      .bracket ")" :: indexSymbols indexes)
  | .property receiver name, indexes =>
    if isIndexName name then
      if takesParts receiver then spell grammar receiver (name :: indexes)
      else wrap true (spell grammar receiver []) ++ indexSymbols (name :: indexes)
    else
      wrap (!takesParts receiver) (spell grammar receiver []) ++
        .operator "." :: .word name :: indexSymbols indexes
  | .methodCall receiver name arguments, indexes =>
    wrap (!takesParts receiver) (spell grammar receiver []) ++
      .operator "." :: .word name :: .bracket "(" ::
        ([.operator ","].intercalate (spellAll grammar arguments) ++
          .bracket ")" :: indexSymbols indexes)
  | .unary symbol operand, indexes =>
    .operator symbol ::
      (wrap (wrapsUnder grammar (unaryPriority grammar symbol) operand)
        (spell grammar operand []) ++ indexSymbols indexes)
  | .binary symbol left right, indexes =>
    let priority := binaryPriority grammar symbol
    let rightward := groupsRight grammar symbol
    wrap (wrapsBeside grammar priority rightward left) (spell grammar left []) ++
      .operator symbol :: (wrap (wrapsBeside grammar priority (!rightward) right)
        (spell grammar right []) ++ indexSymbols indexes)

/-- The symbols of some trees. -/
def spellAll (grammar : Grammar) : List Expr → List (List Symbol)
  | [] => []
  | expr :: exprs => spell grammar expr [] :: spellAll grammar exprs

end

/-- A property that is no index stands after a point, and a path of indexes after it. -/
theorem spell_property_word {grammar : Grammar} {receiver : Expr} {name : String}
    {indexes : List String} (word : isIndexName name = false) :
    spell grammar (.property receiver name) indexes =
      wrap (!takesParts receiver) (spell grammar receiver []) ++
        .operator "." :: .word name :: indexSymbols indexes := by
  rw [spell, word]
  rfl

end Expr

-- ============================================================================
-- Trees that can be spelt
-- ============================================================================

/-- Whether a comma always separates the expressions of a sequence. -/
def Grammar.separates (grammar : Grammar) : Bool :=
  (grammar.unary? ",").isNone && (grammar.binary? ",").isNone

/-- Whether a name is read as a name and not as a literal. -/
def IsName (keywords : List String) (name : String) : Prop :=
  IsWord keywords name ∧ Symbol.literal? (.word name) = none

/-- What the trees have in common that a source text spells: operators of the grammar,
    names that are words, indexes in canonical form, numbers without a sign. -/
inductive Spellable (grammar : Grammar) (keywords : List String) : Expr → Prop where
  | unary {symbol operand} (known : (grammar.unary? symbol).isSome = true)
      (shape : IsOperator keywords symbol) (apart : Lexeme.endsOperator symbol.toList = true)
      (inner : Spellable grammar keywords operand) :
      Spellable grammar keywords (.unary symbol operand)
  | binary {symbol left right} (known : (grammar.binary? symbol).isSome = true)
      (shape : IsOperator keywords symbol) (first : Spellable grammar keywords left)
      (second : Spellable grammar keywords right) :
      Spellable grammar keywords (.binary symbol left right)
  | methodCall {receiver name arguments} (separates : grammar.separates = true)
      (owner : Spellable grammar keywords receiver) (word : IsWord keywords name)
      (each : ∀ argument ∈ arguments, Spellable grammar keywords argument) :
      Spellable grammar keywords (.methodCall receiver name arguments)
  | call {name arguments} (separates : grammar.separates = true) (word : IsName keywords name)
      (each : ∀ argument ∈ arguments, Spellable grammar keywords argument) :
      Spellable grammar keywords (.call name arguments)
  | property {receiver name} (owner : Spellable grammar keywords receiver)
      (part : IsWord keywords name ∨ Expr.IsIndex name) :
      Spellable grammar keywords (.property receiver name)
  | identifier {name} (word : IsName keywords name) :
      Spellable grammar keywords (.identifier name)
  | bool {value} : Spellable grammar keywords (.bool value)
  | nil : Spellable grammar keywords .nil
  | float {bits} (positive : Binary64.isPositive (.ofBits bits) = true) :
      Spellable grammar keywords (.float bits)
  | int {value} (positive : 0 ≤ value.toInt) : Spellable grammar keywords (.int value)
  | text {value} : Spellable grammar keywords (.text value)
  | list {items} (separates : grammar.separates = true)
      (each : ∀ item ∈ items, Spellable grammar keywords item) :
      Spellable grammar keywords (.list items)

theorem IsOperator.ne_point {keywords : List String} {symbol : String}
    (h : IsOperator keywords symbol) : symbol ≠ "." := by
  obtain ⟨c, rest, hsymbol, hc⟩ := h.head
  rintro rfl
  obtain ⟨rfl, -⟩ := List.cons.inj hsymbol
  rcases hc with hc | hc | hc <;> cases hc

/-- A word is no index. -/
theorem IsWord.not_isIndexName {keywords : List String} {name : String}
    (h : IsWord keywords name) : Expr.isIndexName name = false := by
  obtain ⟨c, rest, hname, opens, -⟩ := h
  simp [Expr.isIndexName, hname, Lexeme.not_isDigit_of_isWordStart opens]

-- ============================================================================
-- Faithful trees
-- ============================================================================

namespace Expr

mutual

/-- Whether a tree is read back from the text that it is printed as: its operators
    group in the text as they do in the tree, and its floats are finite. -/
def faithful (grammar : Grammar) : Expr → Bool
  | .unary _ operand => faithful grammar operand
  | .binary symbol left right =>
    let priority := binaryPriority grammar symbol
    (wrapsBeside grammar priority (groupsRight grammar symbol) left ||
        !swallows grammar priority left) &&
      faithful grammar left && faithful grammar right
  | .methodCall receiver _ arguments =>
    faithful grammar receiver && allFaithful grammar arguments
  | .call _ arguments => allFaithful grammar arguments
  | .property receiver _ => faithful grammar receiver
  | .float bits => Binary64.isFinite (.ofBits bits)
  | .list items => allFaithful grammar items
  | .identifier _ | .bool _ | .nil | .int _ | .text _ => true

/-- Whether this is so for some trees. -/
def allFaithful (grammar : Grammar) : List Expr → Bool
  | [] => true
  | expr :: exprs => faithful grammar expr && allFaithful grammar exprs

end

-- ============================================================================
-- Levels of printed trees
-- ============================================================================

mutual

/-- How many levels of expressions open inside a tree while its printed text is read. The
    operand of a prefix operator, the right operand of an infix operator, an argument and
    an item open one, and so do the parentheses that the printer adds. -/
def levels (grammar : Grammar) : Expr → Nat
  | .unary symbol operand =>
    levels grammar operand + (wrapsUnder grammar (unaryPriority grammar symbol) operand).toNat + 1
  | .binary symbol left right =>
    let priority := binaryPriority grammar symbol
    let rightward := groupsRight grammar symbol
    max (levels grammar left + (wrapsBeside grammar priority rightward left).toNat)
      (levels grammar right + (wrapsBeside grammar priority (!rightward) right).toNat + 1)
  | .methodCall receiver _ arguments =>
    max (levels grammar receiver + (!takesParts receiver).toNat) (levelsAll grammar arguments)
  | .call _ arguments => levelsAll grammar arguments
  | .property receiver _ => levels grammar receiver + (!takesParts receiver).toNat
  | .list items => levelsAll grammar items
  | .identifier _ | .bool _ | .nil | .float _ | .int _ | .text _ => 0

/-- How many open for some trees, each at a level of its own. -/
def levelsAll (grammar : Grammar) : List Expr → Nat
  | [] => 0
  | expr :: exprs => max (levels grammar expr + 1) (levelsAll grammar exprs)

end

end Expr

end ExprMachine
