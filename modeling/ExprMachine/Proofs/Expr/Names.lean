/-
  ExprMachine.Proofs.Expr.Names

  The names in a tree: those of parts of the environment, and those of calls, methods and
  properties. Each of them is a word of its own among the symbols that the tree is read
  from.
-/
import ExprMachine.Proofs.Expr.Parsed
import ExprMachine.Proofs.Expr.Rendered

namespace ExprMachine

open ExprMachine.Expr

-- ============================================================================
-- Names in a tree
-- ============================================================================

namespace Expr

mutual

/-- The names of the parts of the environment that a tree asks for. -/
def identifiers : Expr → List String
  | .identifier name => [name]
  | .unary _ operand => identifiers operand
  | .binary _ left right => identifiers left ++ identifiers right
  | .methodCall receiver _ arguments => identifiers receiver ++ identifiersAll arguments
  | .call _ arguments => identifiersAll arguments
  | .property receiver _ => identifiers receiver
  | .list items => identifiersAll items
  | .bool _ | .nil | .float _ | .int _ | .text _ => []

/-- These names in some trees. -/
def identifiersAll : List Expr → List String
  | [] => []
  | expr :: exprs => identifiers expr ++ identifiersAll exprs

end

mutual

/-- The names of the calls, methods and properties in a tree. -/
def parts : Expr → List String
  | .methodCall receiver name arguments => parts receiver ++ name :: partsAll arguments
  | .call name arguments => name :: partsAll arguments
  | .property receiver name => parts receiver ++ [name]
  | .unary _ operand => parts operand
  | .binary _ left right => parts left ++ parts right
  | .list items => partsAll items
  | .identifier _ | .bool _ | .nil | .float _ | .int _ | .text _ => []

/-- These names in some trees. -/
def partsAll : List Expr → List String
  | [] => []
  | expr :: exprs => parts expr ++ partsAll exprs

end

mutual

/-- The tree with another one in place of every identifier of the name. -/
def substitute (name : String) (inner : Expr) : Expr → Expr
  | .identifier other => if other = name then inner else .identifier other
  | .unary symbol operand => .unary symbol (substitute name inner operand)
  | .binary symbol left right =>
    .binary symbol (substitute name inner left) (substitute name inner right)
  | .methodCall receiver method arguments =>
    .methodCall (substitute name inner receiver) method (substituteAll name inner arguments)
  | .call function arguments => .call function (substituteAll name inner arguments)
  | .property receiver part => .property (substitute name inner receiver) part
  | .list items => .list (substituteAll name inner items)
  | .bool value => .bool value
  | .nil => .nil
  | .float bits => .float bits
  | .int value => .int value
  | .text value => .text value

/-- The trees with another one in place of every identifier of the name. -/
def substituteAll (name : String) (inner : Expr) : List Expr → List Expr
  | [] => []
  | expr :: exprs => substitute name inner expr :: substituteAll name inner exprs

end

theorem substituteAll_eq_self {name : String} {inner : Expr} {exprs : List Expr}
    (h : ∀ expr ∈ exprs, name ∉ expr.identifiers → substitute name inner expr = expr)
    (absent : name ∉ identifiersAll exprs) : substituteAll name inner exprs = exprs := by
  induction exprs with
  | nil => rfl
  | cons expr exprs ih =>
    obtain ⟨hexpr, hexprs⟩ := List.forall_mem_cons.1 h
    rw [identifiersAll, List.mem_append, not_or] at absent
    rw [substituteAll, hexpr absent.1, ih hexprs absent.2]

/-- A tree without the name stays as it is. -/
theorem substitute_eq_self {name : String} {inner expr : Expr}
    (absent : name ∉ expr.identifiers) : substitute name inner expr = expr := by
  induction expr with
  | identifier other =>
    rw [identifiers, List.mem_singleton] at absent
    rw [substitute, if_neg (Ne.symm absent)]
  | unary symbol operand ih =>
    rw [identifiers] at absent
    rw [substitute, ih absent]
  | binary symbol left right ihLeft ihRight =>
    rw [identifiers, List.mem_append, not_or] at absent
    rw [substitute, ihLeft absent.1, ihRight absent.2]
  | methodCall receiver method arguments ih ihArguments =>
    rw [identifiers, List.mem_append, not_or] at absent
    rw [substitute, ih absent.1, substituteAll_eq_self ihArguments absent.2]
  | call function arguments ihArguments =>
    rw [identifiers] at absent
    rw [substitute, substituteAll_eq_self ihArguments absent]
  | property receiver part ih =>
    rw [identifiers] at absent
    rw [substitute, ih absent]
  | list items ihItems =>
    rw [identifiers] at absent
    rw [substitute, substituteAll_eq_self ihItems absent]
  | bool | nil | float | int | text => rw [substitute]

theorem identifiers_indexes (expr : Expr) (path : List String) :
    (path.foldl .property expr).identifiers = expr.identifiers := by
  induction path generalizing expr with
  | nil => rfl
  | cons index path ih => rw [List.foldl_cons, ih, identifiers]

theorem parts_indexes (expr : Expr) (path : List String) :
    (path.foldl .property expr).parts = expr.parts ++ path := by
  induction path generalizing expr with
  | nil => simp
  | cons index path ih => rw [List.foldl_cons, ih, parts, List.append_assoc]; rfl

theorem substitute_indexes (name : String) (inner expr : Expr) (path : List String) :
    substitute name inner (path.foldl .property expr) =
      path.foldl .property (substitute name inner expr) := by
  induction path generalizing expr with
  | nil => rfl
  | cons index path ih => rw [List.foldl_cons, ih, substitute, List.foldl_cons]

theorem isIdentifier_of_substitute {name : String} {inner expr : Expr}
    (h : (substitute name inner expr).isIdentifier = true) : expr.isIdentifier = true := by
  cases expr with
  | identifier => rfl
  | _ => cases h

theorem mem_identifiersAll {name : String} {exprs : List Expr} :
    name ∈ identifiersAll exprs ↔ ∃ expr ∈ exprs, name ∈ expr.identifiers := by
  induction exprs with
  | nil => simp [identifiersAll]
  | cons expr exprs ih => simp [identifiersAll, ih]

end Expr

/-- The identifiers of a tree that can be spelt are names. -/
theorem Spellable.isName {grammar : Grammar} {keywords : List String} {expr : Expr}
    {name : String} (h : Spellable grammar keywords expr) (mem : name ∈ expr.identifiers) :
    IsName keywords name := by
  induction h with
  | unary _ _ _ _ ih =>
    rw [identifiers] at mem
    exact ih mem
  | binary _ _ _ _ ihLeft ihRight =>
    rw [identifiers, List.mem_append] at mem
    exact mem.elim ihLeft ihRight
  | methodCall _ _ _ _ ih ihArguments =>
    rw [identifiers, List.mem_append, mem_identifiersAll] at mem
    rcases mem with mem | ⟨argument, hargument, mem⟩
    · exact ih mem
    · exact ihArguments argument hargument mem
  | call _ _ _ ihArguments =>
    rw [identifiers, mem_identifiersAll] at mem
    obtain ⟨argument, hargument, mem⟩ := mem
    exact ihArguments argument hargument mem
  | property _ _ ih =>
    rw [identifiers] at mem
    exact ih mem
  | identifier word =>
    rw [identifiers, List.mem_singleton] at mem
    exact mem ▸ word
  | list _ _ ihItems =>
    rw [identifiers, mem_identifiersAll] at mem
    obtain ⟨item, hitem, mem⟩ := mem
    exact ihItems item hitem mem
  | bool | nil | float | int | text =>
    rw [identifiers] at mem
    cases mem

namespace Phrase

/-- The names of the parts of the environment in the trees of a phrase. -/
def identifiers : Phrase → List String
  | .expression _ expr | .chain _ expr | .operand expr | .stem expr => expr.identifiers
  | .sequence _ exprs | .items _ exprs => identifiersAll exprs

/-- The names of the calls, methods and properties in the trees of a phrase. -/
def parts : Phrase → List String
  | .expression _ expr | .chain _ expr | .operand expr | .stem expr => expr.parts
  | .sequence _ exprs | .items _ exprs => partsAll exprs

/-- The phrase with a tree in place of every identifier of the name. -/
def substitute (name : String) (inner : Expr) : Phrase → Phrase
  | .expression least expr => .expression least (Expr.substitute name inner expr)
  | .chain least expr => .chain least (Expr.substitute name inner expr)
  | .operand expr => .operand (Expr.substitute name inner expr)
  | .stem expr => .stem (Expr.substitute name inner expr)
  | .sequence kind exprs => .sequence kind (substituteAll name inner exprs)
  | .items kind exprs => .items kind (substituteAll name inner exprs)

end Phrase

-- ============================================================================
-- Names come from words
-- ============================================================================

section Words

variable {name : String}

theorem count_word_of_ne {symbol : Symbol} {symbols : List Symbol}
    (h : symbol.kind ≠ .identifier) :
    (symbol :: symbols).count (.word name) = symbols.count (.word name) := by
  refine List.count_cons_of_ne ?_
  rintro rfl
  exact h rfl

theorem count_word_cons {other : String} {symbols : List Symbol} :
    (Symbol.word other :: symbols).count (.word name) =
      [other].count name + symbols.count (.word name) := by
  have same : (Symbol.word other == .word name) = (other == name) := by
    rw [Bool.eq_iff_iff, beq_iff_eq, beq_iff_eq, Symbol.mk.injEq]
    simp
  rw [List.count_cons, List.count_cons, same, List.count_nil, Nat.zero_add, Nat.add_comm]

/-- A literal has no names. -/
theorem names_of_literal? {symbol : Symbol} {expr : Expr} (h : symbol.literal? = some expr) :
    expr.identifiers = [] ∧ expr.parts = [] := by
  have literal := isLiteral_of_literal? h
  cases expr with
  | bool | nil | float | int | text => exact ⟨rfl, rfl⟩
  | _ => cases literal

/-- Every name in a tree is a word of its own among the symbols that it is read from. -/
theorem Reads.count_le {grammar : Grammar} {phrase : Phrase} {symbols rest : List Symbol}
    (h : Reads grammar phrase symbols rest) (word : isIndexName name = false) :
    phrase.identifiers.count name + phrase.parts.count name + rest.count (.word name) ≤
      symbols.count (.word name) := by
  induction h with
  | expression _ _ ih => exact ih
  | single _ ih => exact ih
  | @binary least symbol info left right symbols between rest _ _ _ _ ihLeft ihRight =>
    rw [count_word_of_ne (by simp)] at ihLeft
    simp only [Phrase.identifiers, Phrase.parts, identifiers, parts,
      List.count_append] at ihLeft ihRight ⊢
    omega
  | @literal symbol expr rest denotes =>
    obtain ⟨hidentifiers, hparts⟩ := names_of_literal? denotes
    rw [Phrase.identifiers, Phrase.parts, hidentifiers, hparts]
    simpa using List.count_le_count_cons
  | operand _ _ ih => exact ih
  | unary _ _ ih =>
    rw [count_word_of_ne (by simp)]
    exact ih
  | parentheses _ ih =>
    rw [count_word_of_ne (by simp)] at ih ⊢
    exact ih
  | list _ ih =>
    rw [count_word_of_ne (by simp)]
    exact ih
  | @name other rest =>
    rw [count_word_cons]
    simp [Phrase.identifiers, Phrase.parts, identifiers, parts]
  | call _ _ ihStem ihSequence =>
    rw [count_word_of_ne (by simp)] at ihStem
    simp only [Phrase.identifiers, Phrase.parts, identifiers, parts, List.count_cons,
      List.count_nil] at ihStem ihSequence ⊢
    omega
  | property _ _ ih =>
    rw [count_word_of_ne (by simp), count_word_cons] at ih
    simp only [Phrase.identifiers, Phrase.parts, identifiers, parts, List.count_append] at ih ⊢
    omega
  | @method expr other arguments symbols between rest _ _ ihStem ihSequence =>
    rw [count_word_of_ne (by simp), count_word_cons, count_word_of_ne (by simp)] at ihStem
    simp only [Phrase.identifiers, Phrase.parts, identifiers, parts, List.count_append,
      List.count_cons, List.count_nil] at ihStem ihSequence ⊢
    omega
  | @indexes expr value path symbols rest _ _ denotes ih =>
    have notMem : name ∉ path := by
      intro hmem
      have index := isIndexName_of_isIndex (isIndex_of_indexPath denotes name hmem)
      rw [word] at index
      cases index
    rw [count_word_of_ne (by simp)] at ih
    simp only [Phrase.identifiers, Phrase.parts, identifiers_indexes, parts_indexes,
      List.count_append, List.count_eq_zero_of_not_mem notMem] at ih ⊢
    exact ih
  | empty =>
    rw [count_word_of_ne (by simp)]
    simp [Phrase.identifiers, Phrase.parts, identifiersAll, partsAll]
  | sequence _ ih => exact ih
  | last _ _ ih =>
    rw [count_word_of_ne (by simp)] at ih
    simpa [Phrase.identifiers, Phrase.parts, identifiersAll, partsAll] using ih
  | item _ _ _ ihItem ihItems =>
    rw [count_word_of_ne (by simp)] at ihItem
    simp only [Phrase.identifiers, Phrase.parts, identifiersAll, partsAll,
      List.count_append] at ihItem ihItems ⊢
    omega

end Words

end ExprMachine
