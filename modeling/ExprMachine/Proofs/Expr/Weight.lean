/-
  ExprMachine.Proofs.Expr.Weight

  How deep a tree can be, and how many levels can open for it, in terms of the symbols
  that it is read from.
-/
import ExprMachine.Proofs.Expr.Depth
import ExprMachine.Proofs.Expr.Nesting

namespace ExprMachine

open ExprMachine.Expr

/-- How much deeper a symbol can make a tree: by the indexes of a path, not at all if it
    is a closing bracket, and by one level else. -/
def Symbol.weight (symbol : Symbol) : Nat :=
  match symbol with
  | .bracket ")" | .bracket "]" => 0
  | .number value => max 1 ((indexPath value).getD []).length
  | _ => 1

/-- The weight of some symbols together. -/
def Reading.weight : List Symbol → Nat
  | [] => 0
  | symbol :: symbols => symbol.weight + weight symbols

namespace Reading

@[simp] theorem weight_nil : weight [] = 0 := rfl

@[simp] theorem weight_cons (symbol : Symbol) (symbols : List Symbol) :
    weight (symbol :: symbols) = symbol.weight + weight symbols := rfl

@[simp] theorem weight_append (symbols others : List Symbol) :
    weight (symbols ++ others) = weight symbols + weight others := by
  induction symbols with
  | nil => simp
  | cons symbol symbols ih => rw [List.cons_append, weight_cons, weight_cons, ih, Nat.add_assoc]

end Reading

namespace Symbol

@[simp] theorem weight_operator (symbol : String) : (operator symbol).weight = 1 := rfl

@[simp] theorem weight_word (name : String) : (word name).weight = 1 := rfl

@[simp] theorem weight_parenthesis : (bracket "(").weight = 1 := rfl

@[simp] theorem weight_list : (bracket "[").weight = 1 := rfl

@[simp] theorem weight_close (kind : SequenceKind) : (bracket kind.close).weight = 0 := by
  cases kind <;> rfl

theorem one_le_weight_number (value : String) : 1 ≤ (number value).weight :=
  Nat.le_max_left ..

theorem length_le_weight_number {value : String} {path : List String}
    (h : indexPath value = some path) : path.length ≤ (number value).weight := by
  have weight : (number value).weight = max 1 ((indexPath value).getD []).length := rfl
  rw [weight, h]
  exact Nat.le_max_right ..

/-- The symbol of a literal can be one level deep at least. -/
theorem one_le_weight_of_literal? {symbol : Symbol} {expr : Expr}
    (h : symbol.literal? = some expr) : 1 ≤ symbol.weight := by
  obtain ⟨kind, value⟩ := symbol
  cases kind with
  | identifier | text => exact Nat.le_refl 1
  | number => exact one_le_weight_number value
  | operator | bracket | endOfInput => cases h

end Symbol

open Reading

/-- What a phrase with so many levels makes of its symbols: the levels, of which an
    expression has one more than its operands, and the depth of the tree. -/
def Phrase.burden (levels : Nat) : Phrase → Nat
  | .expression _ expr => max levels expr.depth
  | .chain _ expr | .operand expr | .stem expr => max (levels + 1) expr.depth
  | .sequence _ exprs | .items _ exprs => max levels (depthAll exprs)

/-- Levels and depth are bounded by the weight of the symbols that are read. -/
theorem Nests.burden_le {grammar : Grammar} {levels : Nat} {phrase : Phrase}
    {symbols rest : List Symbol} (h : Nests grammar levels phrase symbols rest) :
    phrase.burden levels + weight rest ≤ weight symbols := by
  induction h with
  | expression _ _ ih => exact ih
  | single _ ih => exact ih
  | binary _ _ _ _ ihLeft ihRight =>
    simp only [Phrase.burden, depth, weight_cons, Symbol.weight_operator] at ihLeft ihRight ⊢
    omega
  | literal denotes =>
    have heavy := Symbol.one_le_weight_of_literal? denotes
    simp only [Phrase.burden, depth_of_literal? denotes, weight_cons]
    omega
  | operand _ _ ih => exact ih
  | unary _ _ ih =>
    simp only [Phrase.burden, depth, weight_cons, Symbol.weight_operator] at ih ⊢
    omega
  | parentheses _ ih =>
    have close := Symbol.weight_close .arguments
    simp only [Phrase.burden, weight_cons, Symbol.weight_parenthesis] at ih ⊢
    omega
  | list _ ih =>
    simp only [Phrase.burden, depth, weight_cons, Symbol.weight_list] at ih ⊢
    omega
  | name =>
    simp only [Phrase.burden, depth, weight_cons, Symbol.weight_word]
    omega
  | call _ _ ihStem ihSequence =>
    simp only [Phrase.burden, depth, weight_cons, Symbol.weight_parenthesis] at ihStem ihSequence ⊢
    omega
  | property _ _ ih =>
    simp only [Phrase.burden, depth, weight_cons, Symbol.weight_operator,
      Symbol.weight_word] at ih ⊢
    omega
  | method _ _ ihStem ihSequence =>
    simp only [Phrase.burden, depth, weight_cons, Symbol.weight_operator, Symbol.weight_word,
      Symbol.weight_parenthesis] at ihStem ihSequence ⊢
    omega
  | indexes _ _ denotes ih =>
    have heavy := Symbol.length_le_weight_number denotes
    simp only [Phrase.burden, depth_foldl_property, weight_cons] at ih ⊢
    omega
  | empty =>
    simp only [Phrase.burden, depthAll, weight_cons]
    omega
  | sequence _ ih => exact ih
  | last _ _ ih =>
    simp only [Phrase.burden, depthAll, weight_cons, Symbol.weight_close] at ih ⊢
    omega
  | item _ _ _ ihItem ihItems =>
    simp only [Phrase.burden, depthAll, weight_cons, Symbol.weight_operator] at ihItem ihItems ⊢
    omega

/-- A tree is no deeper than its symbols are heavy. -/
theorem Reads.depth_le {grammar : Grammar} {phrase : Phrase} {symbols rest : List Symbol}
    (h : Reads grammar phrase symbols rest) : phrase.burden 0 ≤ weight symbols := by
  obtain ⟨levels, nests⟩ := h.exists_nests
  have bound := nests.burden_le
  cases phrase <;> simp only [Phrase.burden] at bound ⊢ <;> omega

end ExprMachine
