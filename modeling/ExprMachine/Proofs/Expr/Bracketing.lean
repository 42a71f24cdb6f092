/-
  ExprMachine.Proofs.Expr.Bracketing

  The ways in which a tree is written: its operators and operands in order, with pairs of
  parentheses around some of its parts. Whatever is read as a tree is written in one of
  these ways, and there the operators around a part that has no pair of its own leave it
  together.
-/
import ExprMachine.Proofs.Expr.Brackets
import ExprMachine.Proofs.Expr.Receivers
import ExprMachine.Proofs.Expr.Reread

namespace ExprMachine

open ExprMachine.Expr Reading

-- ============================================================================
-- Numbers that start with a point
-- ============================================================================

theorem Text.not_mem_of_readNumeral? {text : List Char} {number : Nat}
    (h : Text.readNumeral? 10 text = some number) : '.' ∉ text := by
  intro mem
  exact absurd (Text.isDigitOf_of_readNumeral? h '.' mem) (by decide)

namespace Decimal

theorem not_mem_of_readExponent? {text : List Char} {exponent : Int}
    (h : readExponent? text = some exponent) : '.' ∉ text := by
  have signed {text : List Char} (read : Text.readSigned? 10 text = some exponent) :
      '.' ∉ text := by
    unfold Text.readSigned? at read
    split at read
    all_goals
      cases hnumber : Text.readNumeral? 10 _ with
      | some number => simpa using Text.not_mem_of_readNumeral? hnumber
      | none =>
        rw [hnumber] at read
        cases read
  cases text with
  | nil => exact List.not_mem_nil
  | cons mark rest =>
    rw [readExponent?] at h
    split at h
    · rename_i letter
      rcases letter with rfl | rfl
      · simpa using signed h
      · simpa using signed h
    · cases h

/-- No second point stands in a numeral. -/
theorem not_mem_of_readMagnitude? {text : List Char} {value : Float}
    (h : readMagnitude? ('.' :: text) = some value) : '.' ∉ text := by
  have whole : ('.' :: text).dropWhile Char.isDigit = '.' :: text := rfl
  simp only [readMagnitude?, whole, Option.bind_eq_bind, Option.bind_eq_some_iff] at h
  obtain ⟨number, -, exponent, hexponent, -⟩ := h
  intro mem
  rw [← List.takeWhile_append_dropWhile (p := Char.isDigit) (l := text), List.mem_append] at mem
  rcases mem with mem | mem
  · exact absurd (List.mem_takeWhile_imp mem) (by decide)
  · exact not_mem_of_readExponent? hexponent mem

end Decimal

/-- A number that denotes a literal is no path of several indexes. -/
theorem Expr.length_indexPath_of_ofNumber {lexeme : String} {expr : Expr} {path : List String}
    (point : (Symbol.number lexeme).isIndexes = true) (h : ofNumber lexeme = .ok expr)
    (denotes : indexPath lexeme = some path) : path.length = 1 := by
  obtain ⟨rest, hlexeme⟩ : ∃ rest, lexeme.toList = '.' :: rest := by
    simp only [Symbol.isIndexes, Bool.and_eq_true, beq_iff_eq, List.head?_eq_some_iff] at point
    exact point.2
  have hplain : withoutSeparators lexeme.toList = '.' :: withoutSeparators rest := by
    rw [hlexeme]
    rfl
  have hsplit (text : List Char) : splitBase ('.' :: text) = (10, '.' :: text) := rfl
  have single : '.' ∉ rest := by
    intro mem
    cases read : Decimal.readMagnitude? ('.' :: withoutSeparators rest) with
    | some value =>
      exact Decimal.not_mem_of_readMagnitude? read (List.mem_filter.2 ⟨mem, by decide⟩)
    | none =>
      have : Decimal.readFloat? ('.' :: withoutSeparators rest) = none := read
      simp [ofNumber, hplain, hsplit, this] at h
  have segments : rest.splitOn '.' = [rest] := by
    have := @List.splitOn_intercalate _ [rest] _ _ '.' (by simpa using single) (by simp)
    simpa using this
  rw [indexPath, hlexeme, List.drop_one, List.tail_cons, segments] at denotes
  obtain ⟨index, -, denotes⟩ := Option.bind_eq_some_iff.1 denotes
  cases denotes
  rfl

-- ============================================================================
-- Outlines
-- ============================================================================

namespace Symbol

/-- What stands for every name and every literal of one token. -/
def leaf : Symbol := .word ""

/-- The symbol without what it says: operators and brackets are as they were, and the indexes
    of a path are taken apart into names after points. -/
def outline (symbol : Symbol) : List Symbol :=
  if symbol.isIndexes then
    ((indexPath symbol.value).getD [symbol.value]).flatMap fun _ => [.operator ".", leaf]
  else if symbol.kind = .operator ∨ symbol.kind = .bracket then [symbol]
  else [leaf]

/-- How much the symbol counts. Parentheses do not count, and neither does a point, since a
    float may start with one. -/
def size (symbol : Symbol) : Nat :=
  if symbol = .operator "." ∨ symbol = .bracket "(" ∨ symbol = .bracket ")" then 0 else 1

@[simp] theorem outline_operator (symbol : String) :
    (operator symbol).outline = [operator symbol] := rfl

@[simp] theorem outline_bracket (bracket : String) :
    (Symbol.bracket bracket).outline = [.bracket bracket] := rfl

@[simp] theorem outline_word (name : String) : (word name).outline = [leaf] := rfl

@[simp] theorem outline_text (value : String) : (text value).outline = [leaf] := rfl

theorem outline_indexes {value : String} {path : List String}
    (point : (number value).isIndexes = true) (denotes : indexPath value = some path) :
    (number value).outline = path.flatMap fun _ => [.operator ".", leaf] := by
  simp [outline, point, denotes]

/-- A number that starts with a digit is no path. -/
theorem outline_of_isDigit {lexeme : String} {c : Char} {rest : List Char}
    (h : lexeme.toList = c :: rest) (digit : c.isDigit = true) :
    (number lexeme).outline = [leaf] := by
  have noPoint : c ≠ '.' := by
    rintro rfl
    cases digit
  simp [outline, isIndexes, h, noPoint]

/-- A literal of one token counts once, even if it is a float that starts with a point. -/
theorem outline_of_literal? {symbol : Symbol} {expr : Expr} (h : symbol.literal? = some expr) :
    symbol.outline = [leaf] ∨ symbol.outline = [.operator ".", leaf] := by
  obtain ⟨kind, value⟩ := symbol
  cases kind with
  | number =>
    cases point : (number value).isIndexes with
    | false => exact .inl (by simp [outline, point])
    | true =>
      right
      have read := literal?_number_iff.1 h
      cases denotes : indexPath value with
      | none => simp [outline, point, denotes]
      | some path =>
        obtain ⟨index, rfl⟩ := List.length_eq_one_iff.1
          (length_indexPath_of_ofNumber point read denotes)
        exact outline_indexes point denotes
  | operator | bracket | endOfInput => cases h
  | identifier | text => exact .inl rfl

@[simp] theorem size_leaf : leaf.size = 1 := by decide

@[simp] theorem size_open : (Symbol.bracket "(").size = 0 := by decide

@[simp] theorem size_close : (Symbol.bracket ")").size = 0 := by decide

@[simp] theorem size_point : (operator ".").size = 0 := by decide

theorem size_operator {symbol : String} (h : symbol ≠ ".") : (operator symbol).size = 1 := by
  simp [size, h]

end Symbol

namespace Reading

/-- The symbols without what they say. -/
def outline (symbols : List Symbol) : List Symbol :=
  symbols.flatMap Symbol.outline

/-- How much the symbols count. -/
def size (symbols : List Symbol) : Nat :=
  (symbols.map Symbol.size).sum

variable {grammar : Grammar} {symbols rest : List Symbol}

@[simp] theorem outline_nil : outline [] = [] := rfl

@[simp] theorem outline_cons (symbol : Symbol) :
    outline (symbol :: rest) = symbol.outline ++ outline rest := rfl

@[simp] theorem outline_append : outline (symbols ++ rest) = outline symbols ++ outline rest :=
  List.flatMap_append

@[simp] theorem size_nil : size [] = 0 := rfl

@[simp] theorem size_cons (symbol : Symbol) : size (symbol :: rest) = symbol.size + size rest :=
  rfl

@[simp] theorem size_append : size (symbols ++ rest) = size symbols + size rest := by
  simp [size]

/-- What a row of symbols starts with can be told from its outline, but for names and
    literals. -/
theorem outline_cases (symbol : Symbol) (rest : List Symbol) :
    (symbol.isIndexes = true ∧ ∃ more, outline (symbol :: rest) = .operator "." :: more) ∨
    (symbol.isIndexes = false ∧ outline (symbol :: rest) = symbol :: outline rest) ∨
    (symbol.isIndexes = false ∧ symbol.kind ≠ .operator ∧ symbol.kind ≠ .bracket ∧
      outline (symbol :: rest) = .leaf :: outline rest) := by
  cases point : symbol.isIndexes with
  | true =>
    left
    refine ⟨rfl, ?_⟩
    rw [outline_cons, Symbol.outline, if_pos point]
    cases denotes : indexPath symbol.value with
    | none => exact ⟨_, rfl⟩
    | some path =>
      obtain ⟨first, others, rfl⟩ := List.exists_cons_of_ne_nil (ne_nil_of_indexPath denotes)
      exact ⟨_, rfl⟩
  | false =>
    right
    rw [outline_cons, Symbol.outline, if_neg (by simp [point])]
    by_cases kept : symbol.kind = .operator ∨ symbol.kind = .bracket
    · exact .inl ⟨rfl, by rw [if_pos kept]; rfl⟩
    · obtain ⟨notOperator, notBracket⟩ := not_or.1 kept
      exact .inr ⟨rfl, notOperator, notBracket, by rw [if_neg kept]; rfl⟩

theorem opensAccess_outline (symbols : List Symbol) :
    opensAccess (outline symbols) = opensAccess symbols := by
  cases symbols with
  | nil => rfl
  | cons symbol rest =>
    rcases outline_cases symbol rest with ⟨point, more, same⟩ | ⟨-, same⟩ | ⟨point, other, -, same⟩
    · rw [same]
      simp [opensAccess, point]
    · rw [same]
      simp [opensAccess]
    · have notPoint : (symbol == .operator ".") = false :=
        beq_eq_false_iff_ne.2 fun h => other (by rw [h])
      rw [same, opensAccess, opensAccess, List.head?_cons, List.head?_cons, Option.some_beq_some,
        Option.some_beq_some, notPoint, Option.any_some, Option.any_some, point]
      rfl

theorem opensInfix_outline (withoutPoint : grammar.WithoutPoint) (least : Nat)
    (symbols : List Symbol) :
    opensInfix grammar least (outline symbols) = opensInfix grammar least symbols := by
  cases symbols with
  | nil => rfl
  | cons symbol rest =>
    rcases outline_cases symbol rest with ⟨point, more, same⟩ | ⟨-, same⟩ | ⟨-, other, -, same⟩
    · have notOperator : symbol.kind ≠ .operator := by
        intro h
        simp [Symbol.isIndexes, h] at point
      rw [same]
      simp [opensInfix, withoutPoint.2, notOperator]
    · rw [same]
      simp [opensInfix]
    · have notOperator : (symbol.kind == .operator) = false := beq_eq_false_iff_ne.2 other
      rw [same, opensInfix, opensInfix, List.head?_cons, List.head?_cons, Option.any_some,
        Option.any_some, notOperator]
      rfl

theorem awaited_outline (stack symbols : List Symbol) :
    awaited stack (outline symbols) = awaited stack symbols := by
  have plain (symbol : Symbol) (other : symbol.kind ≠ .bracket) (stack : List Symbol) :
      awaited stack symbol.outline = some stack := by
    unfold Symbol.outline
    split
    · generalize (indexPath symbol.value).getD [symbol.value] = path
      induction path with
      | nil => rfl
      | cons index path ih => simpa [Symbol.leaf] using ih
    split
    · exact awaited_of_other other
    · rfl
  induction symbols generalizing stack with
  | nil => rfl
  | cons symbol symbols ih =>
    rw [outline_cons]
    by_cases bracket : symbol.kind = .bracket
    · have kept : symbol.outline = [symbol] := by
        simp [Symbol.outline, Symbol.isIndexes, bracket]
      rw [kept, List.singleton_append, awaited, awaited]
      simp only [ih]
    · rw [awaited_append, plain symbol bracket, Option.bind_some, awaited_of_other bracket, ih]

theorem balanced_outline_iff : Balanced (outline symbols) ↔ Balanced symbols := by
  rw [Balanced, awaited_outline, Balanced]

/-- Where two rows are the same, symbols that count stand at the same places of both. -/
theorem eq_of_size_eq {before before' after after' : List Symbol} {symbol symbol' : Symbol}
    (h : before ++ symbol :: after = before' ++ symbol' :: after')
    (same : size before = size before') (counts : symbol.size = 1) (counts' : symbol'.size = 1) :
    before = before' ∧ symbol = symbol' ∧ after = after' := by
  rcases List.append_eq_append_iff.1 h with
    ⟨between, hbetween, hafter⟩ | ⟨between, hbetween, hafter⟩
  · cases between with
    | nil =>
      obtain ⟨hsymbol, hafter⟩ := List.cons.inj hafter
      exact ⟨by simpa using hbetween.symm, hsymbol, hafter⟩
    | cons first between =>
      obtain ⟨rfl, -⟩ := List.cons.inj hafter
      rw [hbetween, size_append, size_cons] at same
      omega
  · cases between with
    | nil =>
      obtain ⟨hsymbol, hafter⟩ := List.cons.inj hafter
      exact ⟨by simpa using hbetween, hsymbol.symm, hafter.symm⟩
    | cons first between =>
      obtain ⟨rfl, -⟩ := List.cons.inj hafter
      rw [hbetween, size_append, size_cons] at same
      omega

end Reading

-- ============================================================================
-- How a tree is written
-- ============================================================================

/-- What is written: a tree with or without a pair of parentheses around it, or a sequence
    of trees with its closing bracket. -/
inductive Form where
  | tree (paired : Bool) (expr : Expr)
  | sequence (kind : SequenceKind) (exprs : List Expr)

/-- What a tree must be that is written as an operand, before these symbols, of an operator
    that leaves it the infix operators of at least the given priority: without a pair of its
    own it binds as tightly, and it leaves no part that follows. -/
structure Grammar.Keeps (grammar : Grammar) (least : Nat) (paired : Bool) (expr : Expr)
    (rest : List Symbol) : Prop where
  binds : paired = false → ∀ symbol left right, expr = .binary symbol left right →
    least ≤ binaryPriority grammar symbol
  complete : opensAccess rest = true → paired = false ∧
    (expr.isLiteral = true ∨ ∃ symbol left right, expr = .binary symbol left right)

/-- Whether a part can follow a tree that is written with or without a pair of its own: an
    infix operator and a literal need one. -/
def Expr.TakesParts (paired : Bool) (expr : Expr) : Prop :=
  paired = false → takesParts expr = true ∨ ∃ symbol operand, expr = .unary symbol operand

/-- `Bracketed grammar form symbols rest`: with some pairs of parentheses, the form has these
    symbols for its outline, and stands before the rest. -/
inductive Bracketed (grammar : Grammar) : Form → List Symbol → List Symbol → Prop where
  | pair {paired expr symbols rest}
      (inner : Bracketed grammar (.tree paired expr) symbols (.bracket ")" :: rest)) :
      Bracketed grammar (.tree true expr) (.bracket "(" :: (symbols ++ [.bracket ")"])) rest
  | name {name rest} : Bracketed grammar (.tree false (.identifier name)) [.leaf] rest
  | literal {expr symbols rest} (literal : expr.isLiteral = true)
      (written : symbols = [.leaf] ∨ symbols = [.operator ".", .leaf]) :
      Bracketed grammar (.tree false expr) symbols rest
  | unary {symbol info paired operand symbols rest} (known : grammar.unary? symbol = some info)
      (inner : Bracketed grammar (.tree paired operand) symbols rest)
      (keeps : grammar.Keeps info.priority paired operand rest)
      (done : opensInfix grammar info.priority rest = false) :
      Bracketed grammar (.tree false (.unary symbol operand)) (.operator symbol :: symbols) rest
  | binary {symbol info paired left other right before after rest}
      (known : grammar.binary? symbol = some info)
      (first : Bracketed grammar (.tree paired left) before
        (.operator symbol :: (after ++ rest)))
      (second : Bracketed grammar (.tree other right) after rest)
      (keeps : grammar.Keeps info.rightBound other right rest)
      (done : opensInfix grammar info.rightBound rest = false) :
      Bracketed grammar (.tree false (.binary symbol left right))
        (before ++ .operator symbol :: after) rest
  | property {paired receiver name symbols rest}
      (owner : Bracketed grammar (.tree paired receiver) symbols
        (.operator "." :: .leaf :: rest))
      (takes : receiver.TakesParts paired) :
      Bracketed grammar (.tree false (.property receiver name))
        (symbols ++ [.operator ".", .leaf]) rest
  | method {paired receiver name exprs symbols more rest}
      (owner : Bracketed grammar (.tree paired receiver) symbols
        (.operator "." :: .leaf :: .bracket "(" :: (more ++ rest)))
      (takes : receiver.TakesParts paired)
      (arguments : Bracketed grammar (.sequence .arguments exprs) more rest) :
      Bracketed grammar (.tree false (.methodCall receiver name exprs))
        (symbols ++ .operator "." :: .leaf :: .bracket "(" :: more) rest
  | call {paired name exprs symbols more rest}
      (callee : Bracketed grammar (.tree paired (.identifier name)) symbols
        (.bracket "(" :: (more ++ rest)))
      (arguments : Bracketed grammar (.sequence .arguments exprs) more rest) :
      Bracketed grammar (.tree false (.call name exprs)) (symbols ++ .bracket "(" :: more) rest
  | list {exprs symbols rest} (items : Bracketed grammar (.sequence .items exprs) symbols rest) :
      Bracketed grammar (.tree false (.list exprs)) (.bracket "[" :: symbols) rest
  | empty {kind rest} : Bracketed grammar (.sequence kind []) [.bracket kind.close] rest
  | last {kind paired expr symbols rest}
      (only : Bracketed grammar (.tree paired expr) symbols (.bracket kind.close :: rest)) :
      Bracketed grammar (.sequence kind [expr]) (symbols ++ [.bracket kind.close]) rest
  | item {kind paired expr exprs symbols more rest}
      (first : Bracketed grammar (.tree paired expr) symbols (.operator "," :: (more ++ rest)))
      (nonempty : exprs ≠ [])
      (others : Bracketed grammar (.sequence kind exprs) more rest) :
      Bracketed grammar (.sequence kind (expr :: exprs)) (symbols ++ .operator "," :: more) rest

-- ============================================================================
-- What is read
-- ============================================================================

section Read

variable {grammar : Grammar} {least : Nat} {expr : Expr} {symbols rest : List Symbol}

theorem Grammar.Keeps.of_not_binary {paired : Bool}
    (other : ∀ symbol left right, expr ≠ .binary symbol left right)
    (complete : opensAccess rest = true → paired = false ∧ expr.isLiteral = true) :
    grammar.Keeps least paired expr rest where
  binds := fun _ symbol left right same => absurd same (other symbol left right)
  complete := fun access => ⟨(complete access).1, .inl (complete access).2⟩

theorem Expr.TakesParts.not_binary (h : expr.TakesParts false) :
    ∀ symbol left right, expr ≠ .binary symbol left right := by
  rintro symbol left right rfl
  rcases h rfl with takes | ⟨_, _, same⟩
  · cases takes
  · cases same

/-- The outline of a phrase that has been read, before that of the symbols that are left. -/
def Phrase.Bracketed (grammar : Grammar) (symbols rest : List Symbol) : Phrase → Prop
  | .expression least expr =>
    ∃ paired, ExprMachine.Bracketed grammar (.tree paired expr) symbols rest ∧
      grammar.Keeps least paired expr rest ∧ opensInfix grammar least rest = false
  | .chain least expr => ∃ paired, ExprMachine.Bracketed grammar (.tree paired expr) symbols rest ∧
      grammar.Keeps least paired expr rest
  | .operand expr => ∃ paired, ExprMachine.Bracketed grammar (.tree paired expr) symbols rest ∧
      ∀ least, grammar.Keeps least paired expr rest
  | .stem expr => ∃ paired, ExprMachine.Bracketed grammar (.tree paired expr) symbols rest ∧
      expr.TakesParts paired
  | .sequence kind exprs => ExprMachine.Bracketed grammar (.sequence kind exprs) symbols rest
  | .items kind exprs => exprs ≠ [] ∧
      ExprMachine.Bracketed grammar (.sequence kind exprs) symbols rest

/-- The indexes of a path are parts, one of the other. -/
theorem Bracketed.indexes {paired : Bool} {path : List String}
    (h : Bracketed grammar (.tree paired expr) symbols
      ((path.flatMap fun _ => [.operator ".", .leaf]) ++ rest)) (takes : expr.TakesParts paired) :
    ∃ paired, Bracketed grammar (.tree paired (path.foldl .property expr))
      (symbols ++ path.flatMap fun _ => [.operator ".", .leaf]) rest ∧
        (path.foldl .property expr).TakesParts paired := by
  induction path generalizing expr symbols paired with
  | nil => exact ⟨paired, by simpa using h, takes⟩
  | cons index path ih =>
    have first : Bracketed grammar (.tree false (.property expr index))
        (symbols ++ [.operator ".", .leaf])
          ((path.flatMap fun _ => [.operator ".", .leaf]) ++ rest) :=
      .property h takes
    obtain ⟨other, written, takes⟩ := ih first fun _ => .inl rfl
    exact ⟨other, by simpa using written, takes⟩

/-- What is read is the tree with some pairs of parentheses. -/
theorem Reads.exists_bracketed (withoutPoint : grammar.WithoutPoint) {phrase : Phrase}
    (h : Reads grammar phrase symbols rest) :
    ∃ front, outline symbols = front ++ outline rest ∧
      phrase.Bracketed grammar front (outline rest) := by
  induction h with
  | expression _ done ih =>
    obtain ⟨front, hsymbols, paired, written, keeps⟩ := ih
    exact ⟨front, hsymbols, paired, written, keeps, by rwa [opensInfix_outline withoutPoint]⟩
  | single _ ih =>
    obtain ⟨front, hsymbols, paired, written, keeps⟩ := ih
    exact ⟨front, hsymbols, paired, written, keeps _⟩
  | @binary least symbol info left right symbols between rest _ known binds _ ihLeft ihRight =>
    obtain ⟨before, hbefore, paired, first, -⟩ := ihLeft
    obtain ⟨after, hafter, other, second, keeps, done⟩ := ihRight
    rw [outline_cons, Symbol.outline_operator, List.singleton_append, hafter] at hbefore first
    refine ⟨before ++ .operator symbol :: after, by simp [hbefore], false,
      .binary known first second keeps done, ?_, ?_⟩
    · rintro - symbol left right ⟨⟩
      rwa [binaryPriority_eq known]
    · exact fun _ => ⟨rfl, .inr ⟨_, _, _, rfl⟩⟩
  | @literal symbol expr rest denotes =>
    have literal := isLiteral_of_literal? denotes
    refine ⟨symbol.outline, by simp, false, .literal literal (Symbol.outline_of_literal? denotes),
      fun least => .of_not_binary ?_ fun _ => ⟨rfl, literal⟩⟩
    rintro _ _ _ rfl
    cases literal
  | operand _ done ih =>
    obtain ⟨front, hsymbols, paired, written, takes⟩ := ih
    have apart : opensAccess (outline _) = false :=
      (opensAccess_outline _).trans (opensAccess_eq_false done)
    refine ⟨front, hsymbols, paired, written, fun least => ⟨?_, ?_⟩⟩
    · rintro rfl symbol left right same
      exact absurd same (takes.not_binary _ _ _)
    · intro access
      rw [apart] at access
      cases access
  | unary known _ ih =>
    obtain ⟨front, hsymbols, paired, written, keeps, done⟩ := ih
    exact ⟨.operator _ :: front, by simp [hsymbols], false, .unary known written keeps done,
      fun _ => .inr ⟨_, _, rfl⟩⟩
  | parentheses _ ih =>
    obtain ⟨front, hsymbols, paired, written, -⟩ := ih
    rw [outline_cons, Symbol.outline_bracket, List.singleton_append] at hsymbols written
    exact ⟨.bracket "(" :: (front ++ [.bracket ")"]), by simp [hsymbols], true, .pair written,
      nofun⟩
  | list _ ih =>
    obtain ⟨front, hsymbols, written⟩ := ih
    exact ⟨.bracket "[" :: front, by simp [hsymbols], false, .list written, fun _ => .inl rfl⟩
  | name => exact ⟨[.leaf], by simp, false, .name, fun _ => .inl rfl⟩
  | call _ _ ihStem ihSequence =>
    obtain ⟨before, hbefore, paired, callee, -⟩ := ihStem
    obtain ⟨after, hafter, arguments⟩ := ihSequence
    rw [outline_cons, Symbol.outline_bracket, List.singleton_append, hafter] at hbefore callee
    exact ⟨before ++ .bracket "(" :: after, by simp [hbefore], false, .call callee arguments,
      fun _ => .inl rfl⟩
  | property _ _ ih =>
    obtain ⟨front, hsymbols, paired, owner, takes⟩ := ih
    simp only [outline_cons, Symbol.outline_operator, Symbol.outline_word,
      List.singleton_append] at hsymbols owner
    exact ⟨front ++ [.operator ".", .leaf], by simp [hsymbols], false, .property owner takes,
      fun _ => .inl rfl⟩
  | method _ _ ihStem ihSequence =>
    obtain ⟨before, hbefore, paired, owner, takes⟩ := ihStem
    obtain ⟨after, hafter, arguments⟩ := ihSequence
    simp only [outline_cons, Symbol.outline_operator, Symbol.outline_word, Symbol.outline_bracket,
      List.singleton_append, hafter] at hbefore owner
    exact ⟨before ++ .operator "." :: .leaf :: .bracket "(" :: after, by simp [hbefore], false,
      .method owner takes arguments, fun _ => .inl rfl⟩
  | indexes _ point denotes ih =>
    obtain ⟨front, hsymbols, paired, owner, takes⟩ := ih
    rw [outline_cons, Symbol.outline_indexes point denotes] at hsymbols owner
    obtain ⟨other, written, takes⟩ := owner.indexes takes
    exact ⟨_, by rw [hsymbols, List.append_assoc], other, written, takes⟩
  | @empty kind rest => exact ⟨[.bracket kind.close], by simp, .empty⟩
  | sequence _ ih =>
    obtain ⟨front, hsymbols, -, written⟩ := ih
    exact ⟨front, hsymbols, written⟩
  | last _ _ ih =>
    obtain ⟨front, hsymbols, paired, written, -⟩ := ih
    rw [outline_cons, Symbol.outline_bracket, List.singleton_append] at hsymbols written
    exact ⟨_, by rw [hsymbols, List.append_cons], List.cons_ne_nil _ _, .last written⟩
  | item _ _ items ihItem ihItems =>
    obtain ⟨front, hsymbols, paired, written, -⟩ := ihItem
    obtain ⟨others, hothers, nonempty, writtenOthers⟩ := ihItems
    rw [outline_cons, Symbol.outline_operator, List.singleton_append, hothers] at hsymbols written
    exact ⟨front ++ .operator "," :: others, by simp [hsymbols], List.cons_ne_nil _ _,
      .item written nonempty writtenOthers⟩

end Read

-- ============================================================================
-- Extents
-- ============================================================================

namespace Expr

mutual

/-- How much the symbols of a tree count, with whatever pairs of parentheses. -/
def extent : Expr → Nat
  | .unary _ operand => extent operand + 1
  | .binary _ left right => extent left + (extent right + 1)
  | .methodCall receiver _ arguments => extent receiver + (extentAll arguments + 1)
  | .call _ arguments => extentAll arguments + 1
  | .property receiver _ => extent receiver + 1
  | .list items => extentAll items + 2
  | .identifier _ | .bool _ | .nil | .float _ | .int _ | .text _ => 1

/-- How much those of some trees count with the commas between them. -/
def extentAll : List Expr → Nat
  | [] => 0
  | expr :: exprs => extent expr + ((!exprs.isEmpty).toNat + extentAll exprs)

end

theorem extent_of_isLiteral {expr : Expr} (h : expr.isLiteral = true) : expr.extent = 1 := by
  cases expr with
  | bool | nil | float | int | text => rfl
  | _ => cases h

end Expr

namespace Form

/-- How much the symbols of a form count. -/
def extent : Form → Nat
  | .tree _ expr => expr.extent
  | .sequence kind exprs => extentAll exprs + (Symbol.bracket kind.close).size

/-- The bracket that ends the form, if it has been opened before. -/
def awaits : Form → List Symbol
  | .tree .. => []
  | .sequence kind _ => [.bracket kind.close]

end Form

namespace Bracketed

variable {grammar : Grammar} {form : Form} {symbols rest : List Symbol}

theorem size_eq (withoutPoint : grammar.WithoutPoint) (h : Bracketed grammar form symbols rest) :
    size symbols = form.extent := by
  induction h with
  | pair _ ih => simpa [Form.extent] using ih
  | name => rfl
  | literal literal written =>
    rw [Form.extent, extent_of_isLiteral literal]
    rcases written with rfl | rfl <;> rfl
  | unary known _ _ _ ih =>
    have counts := Symbol.size_operator (beq_eq_false_iff_ne.1 (withoutPoint.unary known))
    simp [counts, ih, Form.extent, Expr.extent, Nat.add_comm]
  | binary known _ _ _ _ ihLeft ihRight =>
    have counts := Symbol.size_operator (beq_eq_false_iff_ne.1 (withoutPoint.binary known))
    simp [counts, ihLeft, ihRight, Form.extent, Expr.extent, Nat.add_comm 1]
  | property _ _ ih => simp [ih, Form.extent, Expr.extent]
  | method _ _ _ ih ihArguments =>
    simp [ih, ihArguments, Form.extent, Expr.extent, SequenceKind.close, Nat.add_comm 1]
  | call _ _ ih ihArguments =>
    simp [ih, ihArguments, Form.extent, Expr.extent, SequenceKind.close, Nat.add_comm 1]
  | list _ ih =>
    simp [ih, Form.extent, Expr.extent, SequenceKind.close, Symbol.size]
    omega
  | empty => simp [Form.extent, extentAll]
  | last _ ih => simp [ih, Form.extent, extentAll]
  | item _ nonempty _ ih ihOthers =>
    have counts : (Symbol.operator ",").size = 1 := by decide
    have others := List.isEmpty_eq_false_iff.2 nonempty
    simp [ih, ihOthers, Form.extent, extentAll, others, counts, Nat.add_assoc]

/-- Every bracket of a form has its match in the form, but for the one that ends it. -/
theorem awaited_eq (h : Bracketed grammar form symbols rest) (stack : List Symbol) :
    awaited (form.awaits ++ stack) symbols = some stack := by
  induction h generalizing stack with
  | pair _ ih =>
    have inner := ih (.bracket ")" :: stack)
    simp only [Form.awaits, List.nil_append] at inner ⊢
    rw [awaited_parenthesis, awaited_append, inner, Option.bind_some]
    exact @awaited_close stack [] .arguments
  | name => rfl
  | literal _ written => rcases written with rfl | rfl <;> rfl
  | unary _ _ _ _ ih => exact ih stack
  | binary _ _ _ _ _ ihLeft ihRight =>
    have left := ihLeft stack
    have right := ihRight stack
    simp only [Form.awaits, List.nil_append] at left right ⊢
    simp [awaited_append, left, right]
  | property _ _ ih =>
    have owner := ih stack
    simp only [Form.awaits, List.nil_append] at owner ⊢
    simp [awaited_append, owner, Symbol.leaf]
  | method _ _ _ ih ihArguments =>
    have owner := ih stack
    have arguments := ihArguments stack
    simp only [Form.awaits, List.nil_append, List.singleton_append, SequenceKind.close]
      at owner arguments ⊢
    simpa [awaited_append, owner, Symbol.leaf] using arguments
  | call _ _ ih ihArguments =>
    have callee := ih stack
    have arguments := ihArguments stack
    simp only [Form.awaits, List.nil_append, List.singleton_append, SequenceKind.close]
      at callee arguments ⊢
    simpa [awaited_append, callee] using arguments
  | list _ ih => exact awaited_list.trans (ih stack)
  | empty => exact awaited_close
  | @last kind _ _ _ _ _ ih =>
    have only := ih (.bracket kind.close :: stack)
    simp only [Form.awaits, List.nil_append, List.singleton_append] at only ⊢
    simp [awaited_append, only]
  | @item kind _ _ _ _ _ _ _ _ _ ih ihOthers =>
    have first := ih (.bracket kind.close :: stack)
    have others := ihOthers stack
    simp only [Form.awaits, List.nil_append, List.singleton_append] at first others ⊢
    simp [awaited_append, first, others]

theorem balanced {paired : Bool} {expr : Expr}
    (h : Bracketed grammar (.tree paired expr) symbols rest) : Balanced symbols :=
  h.awaited_eq []

/-- A tree whose symbols are in a pair of parentheses has this pair around it. -/
theorem unpair {paired : Bool} {expr : Expr}
    (h : Bracketed grammar (.tree paired expr) (.bracket "(" :: (symbols ++ [.bracket ")"])) rest)
    (inner : Balanced symbols) : paired = true ∧
      ∃ other, Bracketed grammar (.tree other expr) symbols (.bracket ")" :: rest) := by
  generalize hwhole : Symbol.bracket "(" :: (symbols ++ [.bracket ")"]) = whole at h
  cases h with
  | pair written =>
    obtain ⟨-, hinner⟩ := List.cons.inj hwhole
    rw [List.append_cancel_right hinner]
    exact ⟨rfl, _, written⟩
  | name => simp [Symbol.leaf] at hwhole
  | literal _ written => rcases written with rfl | rfl <;> simp [Symbol.leaf] at hwhole
  | unary => simp at hwhole
  | binary _ first =>
    obtain ⟨-, same⟩ := first.balanced.start_of_pair inner hwhole.symm
    cases same
  | property owner =>
    obtain ⟨-, same⟩ := owner.balanced.start_of_pair inner hwhole.symm
    cases same
  | method owner =>
    obtain ⟨-, same⟩ := owner.balanced.start_of_pair inner hwhole.symm
    cases same
  | call callee =>
    obtain ⟨rfl, -⟩ := callee.balanced.start_of_pair inner hwhole.symm
    cases callee with
    | literal _ written => rcases written with h | h <;> cases h
  | list => simp at hwhole

-- ============================================================================
-- What a tree without a pair around it consists of
-- ============================================================================

variable {paired : Bool} {symbol name : String} {receiver left right operand : Expr}
  {exprs : List Expr} {before after : List Symbol} {kind : SequenceKind}

theorem of_unary
    (h : Bracketed grammar (.tree paired (.unary symbol operand)) (.operator symbol :: after)
      rest) :
    ∃ info other, grammar.unary? symbol = some info ∧
      Bracketed grammar (.tree other operand) after rest ∧
        grammar.Keeps info.priority other operand rest ∧
          opensInfix grammar info.priority rest = false := by
  cases h with
  | unary known inner keeps done => exact ⟨_, _, known, inner, keeps, done⟩
  | literal literal => cases literal

theorem of_binary (withoutPoint : grammar.WithoutPoint)
    (h : Bracketed grammar (.tree paired (.binary symbol left right))
      (before ++ .operator symbol :: after) rest)
    (balanced : Balanced before) (counts : size before = left.extent) :
    paired = false ∧ ∃ info first second, grammar.binary? symbol = some info ∧
      Bracketed grammar (.tree first left) before (.operator symbol :: (after ++ rest)) ∧
        Bracketed grammar (.tree second right) after rest ∧
          grammar.Keeps info.rightBound second right rest ∧
            opensInfix grammar info.rightBound rest = false := by
  generalize hwhole : before ++ .operator symbol :: after = whole at h
  cases h with
  | pair inner =>
    obtain ⟨-, same⟩ := balanced.start_of_pair inner.balanced hwhole
    cases same
  | literal literal => cases literal
  | binary known first second keeps done =>
    have operator := Symbol.size_operator (beq_eq_false_iff_ne.1 (withoutPoint.binary known))
    obtain ⟨rfl, -, rfl⟩ := eq_of_size_eq hwhole
      (counts.trans (first.size_eq withoutPoint).symm) operator operator
    exact ⟨rfl, _, _, _, known, first, second, keeps, done⟩

theorem of_property
    (h : Bracketed grammar (.tree paired (.property receiver name))
      (before ++ [.operator ".", .leaf]) rest) :
    ∃ other, Bracketed grammar (.tree other receiver) before (.operator "." :: .leaf :: rest) ∧
      receiver.TakesParts other := by
  generalize hwhole : before ++ [.operator ".", .leaf] = whole at h
  cases h with
  | pair inner =>
    have last := congrArg List.getLast? hwhole
    simp [Symbol.leaf, List.getLast?_append, List.getLast?_cons] at last
  | literal literal => cases literal
  | property owner takes =>
    rw [List.append_cancel_right hwhole]
    exact ⟨_, owner, takes⟩

theorem of_method (withoutPoint : grammar.WithoutPoint)
    (h : Bracketed grammar (.tree paired (.methodCall receiver name exprs))
      (before ++ .operator "." :: .leaf :: .bracket "(" :: after) rest)
    (balanced : Balanced before) (counts : size before = receiver.extent) :
    ∃ other, Bracketed grammar (.tree other receiver) before
        (.operator "." :: .leaf :: .bracket "(" :: (after ++ rest)) ∧
      receiver.TakesParts other ∧ Bracketed grammar (.sequence .arguments exprs) after rest := by
  generalize hwhole : before ++ .operator "." :: .leaf :: .bracket "(" :: after = whole at h
  cases h with
  | pair inner =>
    obtain ⟨-, same⟩ := balanced.start_of_pair inner.balanced hwhole
    cases same
  | literal literal => cases literal
  | @method _ _ _ _ symbols more _ owner takes arguments =>
    replace hwhole : (before ++ [.operator "."]) ++ .leaf :: .bracket "(" :: after =
        (symbols ++ [.operator "."]) ++ .leaf :: .bracket "(" :: more := by simpa using hwhole
    obtain ⟨hbefore, -, hafter⟩ := eq_of_size_eq hwhole
      (by simp [counts, owner.size_eq withoutPoint, Form.extent]) Symbol.size_leaf Symbol.size_leaf
    obtain rfl := List.append_cancel_right hbefore
    obtain ⟨-, rfl⟩ := List.cons.inj hafter
    exact ⟨_, owner, takes, arguments⟩

theorem of_call
    (h : Bracketed grammar (.tree paired (.call name exprs)) (.leaf :: .bracket "(" :: after)
      rest) :
    Bracketed grammar (.sequence .arguments exprs) after rest := by
  generalize hwhole : Symbol.leaf :: .bracket "(" :: after = whole at h
  cases h with
  | pair => simp [Symbol.leaf] at hwhole
  | literal literal => cases literal
  | call callee arguments =>
    cases callee with
    | pair => simp [Symbol.leaf] at hwhole
    | literal literal => cases literal
    | name =>
      obtain ⟨-, hafter⟩ := List.cons.inj hwhole
      obtain ⟨-, rfl⟩ := List.cons.inj hafter
      exact arguments

theorem of_list
    (h : Bracketed grammar (.tree paired (.list exprs)) (.bracket "[" :: after) rest) :
    Bracketed grammar (.sequence .items exprs) after rest := by
  generalize hwhole : Symbol.bracket "[" :: after = whole at h
  cases h with
  | pair => simp at hwhole
  | literal literal => cases literal
  | list items =>
    obtain ⟨-, rfl⟩ := List.cons.inj hwhole
    exact items

theorem of_single
    (h : Bracketed grammar (.sequence kind [operand]) (before ++ [.bracket kind.close]) rest) :
    ∃ other, Bracketed grammar (.tree other operand) before (.bracket kind.close :: rest) := by
  generalize hwhole : before ++ [.bracket kind.close] = whole at h
  cases h with
  | last only =>
    rw [List.append_cancel_right hwhole]
    exact ⟨_, only⟩
  | item _ nonempty => exact absurd rfl nonempty

theorem of_item (withoutPoint : grammar.WithoutPoint) {second : Expr}
    (h : Bracketed grammar (.sequence kind (operand :: second :: exprs))
      (before ++ .operator "," :: after) rest)
    (counts : size before = operand.extent) :
    (∃ other, Bracketed grammar (.tree other operand) before
      (.operator "," :: (after ++ rest))) ∧
      Bracketed grammar (.sequence kind (second :: exprs)) after rest := by
  generalize hwhole : before ++ .operator "," :: after = whole at h
  cases h with
  | item first _ others =>
    have comma : (Symbol.operator ",").size = 1 := by decide
    obtain ⟨rfl, -, rfl⟩ := eq_of_size_eq hwhole
      (counts.trans (first.size_eq withoutPoint).symm) comma comma
    exact ⟨⟨_, first⟩, others⟩

end Bracketed

end ExprMachine
