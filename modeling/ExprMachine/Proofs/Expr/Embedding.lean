/-
  ExprMachine.Proofs.Expr.Embedding

  An expression in parentheses can stand for a name: where the name is read as a part of
  the environment, the expression is read in its place, and nothing around it is read
  differently.
-/
import ExprMachine.Proofs.Expr.Names
import ExprMachine.Proofs.Expr.RoundTrip
import ExprMachine.Proofs.Token.Placing

namespace ExprMachine

open ExprMachine.Expr Reading

-- ============================================================================
-- Symbols in place of a name
-- ============================================================================

/-- The symbols with others, in parentheses, in place of every word of the name. -/
def embed (name : String) (inner symbols : List Symbol) : List Symbol :=
  symbols.flatMap fun symbol => if symbol = .word name then wrap true inner else [symbol]

section Embed

variable {name : String} {inner : List Symbol}

@[simp] theorem embed_nil : embed name inner [] = [] := rfl

theorem embed_append {symbols more : List Symbol} :
    embed name inner (symbols ++ more) = embed name inner symbols ++ embed name inner more :=
  List.flatMap_append

theorem embed_word {symbols : List Symbol} :
    embed name inner (.word name :: symbols) = wrap true inner ++ embed name inner symbols := by
  simp [embed]

theorem embed_cons {symbol : Symbol} {symbols : List Symbol} (h : symbol ≠ .word name) :
    embed name inner (symbol :: symbols) = symbol :: embed name inner symbols := by
  simp [embed, h]

theorem embed_of_not_mem {symbols : List Symbol} (h : Symbol.word name ∉ symbols) :
    embed name inner symbols = symbols := by
  induction symbols with
  | nil => rfl
  | cons symbol symbols ih =>
    rw [List.mem_cons, not_or] at h
    rw [embed_cons (Ne.symm h.1), ih h.2]

/-- The first symbol stays unless it is the name. -/
theorem head?_embed {symbols : List Symbol} (h : symbols.head? ≠ some (.word name)) :
    (embed name inner symbols).head? = symbols.head? := by
  cases symbols with
  | nil => rfl
  | cons symbol symbols =>
    have different : symbol ≠ .word name := by simpa using h
    rw [embed_cons different]
    rfl

theorem head?_embed_ne_comma {symbols : List Symbol}
    (h : symbols.head? ≠ some (.operator ",")) :
    (embed name inner symbols).head? ≠ some (.operator ",") := by
  by_cases first : symbols.head? = some (.word name)
  · obtain ⟨rest, rfl⟩ := List.head?_eq_some_iff.1 first
    rw [embed_word]
    simp [wrap]
  · rwa [head?_embed first]

/-- No part of a tree starts where none started before, if the tree is a bare name only
    when it was one. -/
theorem opensPart_embed {left other : Expr} {symbols : List Symbol}
    (follows : symbols.head? ≠ some (.word name)) (h : opensPart left symbols = false)
    (weaker : other.isIdentifier = true → left.isIdentifier = true) :
    opensPart other (embed name inner symbols) = false := by
  rw [opensPart, opensArguments, Bool.or_eq_false_iff] at h ⊢
  rw [head?_embed follows]
  refine ⟨h.1, ?_⟩
  rw [Bool.and_eq_false_iff] at h ⊢
  refine h.2.imp_right fun hleft => ?_
  cases hother : other.isIdentifier with
  | false => rfl
  | true =>
    rw [weaker hother] at hleft
    cases hleft

end Embed

-- ============================================================================
-- The tree in place of a name
-- ============================================================================

section Substitute

variable {grammar : Grammar} {name : String} {tree : Expr} {inner : List Symbol}

/-- Where a name is no call, method or property, an expression in parentheses is read in
    its place. What follows a phrase must not be the name: an identifier would take the
    parentheses for its arguments. -/
theorem Reads.substitute (plain : Symbol.literal? (.word name) = none)
    (embedded : Reads grammar (.expression 0 tree) inner []) {phrase : Phrase}
    {symbols rest : List Symbol} (h : Reads grammar phrase symbols rest)
    (whole : name ∉ phrase.parts) (follows : rest.head? ≠ some (.word name)) :
    Reads grammar (phrase.substitute name tree) (embed name inner symbols)
      (embed name inner rest) := by
  induction h with
  | @expression least expr symbols rest _ done ih =>
    refine .expression (ih whole follows) ?_
    rwa [opensInfix, head?_embed follows]
  | single _ ih => exact .single (ih whole follows)
  | @binary least symbol info left right symbols between rest _ known binds _ ihLeft ihRight =>
    rw [Phrase.parts, parts, List.mem_append, not_or] at whole
    have hleft := ihLeft whole.1 (by simp)
    rw [embed_cons (by simp)] at hleft
    rw [Phrase.substitute, Expr.substitute]
    exact .binary hleft known binds (ihRight whole.2 follows)
  | @literal symbol expr rest denotes =>
    have different : symbol ≠ .word name := by
      rintro rfl
      rw [plain] at denotes
      cases denotes
    have absent : name ∉ expr.identifiers := by
      rw [(names_of_literal? denotes).1]
      exact List.not_mem_nil
    rw [embed_cons different, Phrase.substitute, substitute_eq_self absent]
    exact .literal denotes
  | @operand expr symbols rest _ done ih =>
    exact .operand (ih whole follows)
      (opensPart_embed follows done isIdentifier_of_substitute)
  | @unary symbol info expr symbols rest known _ ih =>
    rw [embed_cons (by simp), Phrase.substitute, Expr.substitute]
    exact .unary known (ih whole follows)
  | parentheses _ ih =>
    have inside := ih whole (by simp)
    rw [embed_cons (by simp)] at inside ⊢
    exact .parentheses inside
  | list _ ih =>
    rw [embed_cons (by simp), Phrase.substitute, Expr.substitute]
    exact .list (ih whole follows)
  | @name other rest plainOther =>
    rw [Phrase.substitute, Expr.substitute]
    by_cases same : other = name
    · subst same
      rw [if_pos rfl, embed_word, wrap, if_pos rfl, List.cons_append, List.append_assoc]
      exact .parentheses (embedded.extend (@Ends.close grammar .arguments _))
    · rw [if_neg same, embed_cons (by simpa using same)]
      exact .name plainOther
  | @call other arguments symbols between rest _ _ ihStem ihSequence =>
    rw [Phrase.parts, parts, List.mem_cons, not_or] at whole
    have stem := ihStem (by simp [Phrase.parts, parts]) (by simp)
    rw [embed_cons (by simp), Phrase.substitute, Expr.substitute,
      if_neg (Ne.symm whole.1)] at stem
    rw [Phrase.substitute, Expr.substitute]
    exact .call stem (ihSequence whole.2 follows)
  | @property expr other symbols rest _ done ih =>
    rw [Phrase.parts, parts, List.mem_append, not_or, List.mem_singleton] at whole
    have stem := ih whole.1 (by simp)
    rw [embed_cons (by simp), embed_cons (by simpa using Ne.symm whole.2)] at stem
    rw [Phrase.substitute, Expr.substitute]
    refine .property stem ?_
    rwa [opensArguments, head?_embed follows]
  | @method expr other arguments symbols between rest _ _ ihStem ihSequence =>
    rw [Phrase.parts, parts, List.mem_append, List.mem_cons, not_or, not_or] at whole
    have stem := ihStem whole.1 (by simp)
    rw [embed_cons (by simp), embed_cons (by simpa using Ne.symm whole.2.1),
      embed_cons (by simp)] at stem
    rw [Phrase.substitute, Expr.substitute]
    exact .method stem (ihSequence whole.2.2 follows)
  | @indexes expr value path symbols rest _ point denotes ih =>
    rw [Phrase.parts, parts_indexes, List.mem_append, not_or] at whole
    have stem := ih whole.1 (by simp)
    rw [embed_cons (by simp)] at stem
    rw [Phrase.substitute, substitute_indexes]
    exact .indexes stem point denotes
  | empty =>
    rw [embed_cons (by simp), Phrase.substitute, substituteAll]
    exact .empty
  | sequence _ ih => exact .sequence (ih whole follows)
  | last plainHead _ ih =>
    rw [Phrase.parts, partsAll, partsAll, List.append_nil] at whole
    have item := ih whole (by simp)
    rw [embed_cons (by simp)] at item
    rw [Phrase.substitute, substituteAll, substituteAll]
    exact .last (head?_embed_ne_comma plainHead) item
  | item plainHead _ _ ihItem ihItems =>
    rw [Phrase.parts, partsAll, List.mem_append, not_or] at whole
    have item := ihItem whole.1 (by simp)
    rw [embed_cons (by simp)] at item
    rw [Phrase.substitute, substituteAll]
    exact .item (head?_embed_ne_comma plainHead) item (ihItems whole.2 follows)

/-- The same for a whole list of symbols that has the name once and reads it as a part of
    the environment. -/
theorem reads_embed {whole : Expr} {front back : List Symbol}
    (word : isIndexName name = false) (plain : Symbol.literal? (.word name) = none)
    (embedded : Reads grammar (.expression 0 tree) inner [])
    (h : Reads grammar (.expression 0 whole) (front ++ .word name :: back) [])
    (once : (front ++ .word name :: back).count (.word name) = 1)
    (node : name ∈ whole.identifiers) :
    whole.identifiers.count name = 1 ∧
      Reads grammar (.expression 0 (Expr.substitute name tree whole))
        (front ++ (wrap true inner ++ back)) [] := by
  have uses := h.count_le word
  rw [once, List.count_nil, Nat.add_zero, Phrase.identifiers, Phrase.parts] at uses
  have used : 0 < whole.identifiers.count name := List.count_pos_iff.2 node
  have notPart : name ∉ whole.parts := List.count_eq_zero.1 (by omega)
  have others : front.count (.word name) = 0 ∧ back.count (.word name) = 0 := by
    rw [List.count_append, List.count_cons_self] at once
    omega
  have reads := Reads.substitute plain embedded h notPart (by simp)
  rw [embed_append, embed_word, embed_of_not_mem (List.count_eq_zero.1 others.1),
    embed_of_not_mem (List.count_eq_zero.1 others.2)] at reads
  exact ⟨by omega, reads⟩

end Substitute

-- ============================================================================
-- The text in place of a name
-- ============================================================================

namespace Source

theorem tokens_eq_ok_iff {source : String} {found : List Token} :
    tokens source = .ok found ↔ Token.scan Token.standardKeywords source = .ok found := by
  unfold tokens
  cases Token.scan Token.standardKeywords source <;> simp [Except.mapError]

/-- The symbols of a source with another one, in parentheses, in place of a token. -/
theorem scans_embed {keywords : List String} {context inner : List Char} {place : Position}
    {front back within : List Token} {token : Token} (notText : token.kind ≠ .text)
    (h : Tokenizes keywords place context (front ++ token :: back) [])
    (embedded : Tokenizes keywords place inner within []) :
    ∃ before after, context = before ++ (token.value.toList ++ after) ∧
      token.position = place.advanceAll before ∧
        Scans keywords (before ++ '(' :: (inner ++ ')' :: after))
          (Token.symbols front ++ (wrap true (Token.symbols within) ++ Token.symbols back)) := by
  obtain ⟨before, lexeme, after, rfl, position, hfront, lexes, hback⟩ := h.split
  obtain rfl : lexeme = token.value.toList :=
    List.append_cancel_right (lexes.source_eq notText)
  refine ⟨before, after, rfl, position, ?_⟩
  have scansBack : Scans keywords after (Token.symbols back) := by
    simpa using hback.scans .nil
  have close : Scans keywords (')' :: after) (.bracket ")" :: Token.symbols back) :=
    .token (.bracket (c := ')') (by decide)) scansBack
  obtain ⟨taken, htaken, inside⟩ :=
    embedded.resume (Lexeme.breaks_bracket (c := ')') (by decide)) after
  obtain rfl : inner = taken := by simpa using htaken
  have opening : Scans keywords ('(' :: (inner ++ ')' :: after))
      (.bracket "(" :: (Token.symbols within ++ .bracket ")" :: Token.symbols back)) :=
    .token (.bracket (c := '(') (by decide)) (inside.scans close)
  obtain ⟨taken, htaken, outside⟩ :=
    hfront.resume (Lexeme.breaks_bracket (c := '(') (by decide)) (inner ++ ')' :: after)
  obtain rfl := List.append_cancel_right htaken
  have scans := outside.scans opening
  simpa [wrap] using scans

/-- An expression in parentheses, in place of a name that a source has once and reads as a
    part of the environment, stands in the tree where the name stood, or the source nests
    too deeply. -/
theorem expr_embed {context inner : String} {whole tree : Expr} {tokens : List Token}
    {token : Token} (parsed : expr context = .ok whole) (embedded : expr inner = .ok tree)
    (scanned : Source.tokens context = .ok tokens) (mem : token ∈ tokens)
    (isWord : token.kind = .identifier)
    (once : (Token.symbols tokens).count token.symbol = 1)
    (node : token.value ∈ whole.identifiers) :
    whole.identifiers.count token.value = 1 ∧
      (expr (replace context token ("(" ++ inner ++ ")")) =
          .ok (Expr.substitute token.value tree whole) ∨
        ∃ failure, expr (replace context token ("(" ++ inner ++ ")")) = .error failure ∧
          failure.code = "RB-P007") := by
  obtain ⟨_, hscan, hparse⟩ := expr_eq_ok_iff.1 parsed
  obtain rfl := Except.ok.inj ((tokens_eq_ok_iff.2 hscan).symm.trans scanned)
  obtain ⟨found, mark, rfl, hmark, hspelt, tokenizes⟩ := Token.tokenizes_of_scan hscan
  obtain ⟨_, hscanInner, hparseInner⟩ := expr_eq_ok_iff.1 embedded
  obtain ⟨within, _, rfl, -, hspeltInner, tokenizesInner⟩ := Token.tokenizes_of_scan hscanInner
  -- The token is not the mark of the end, so it stands between two lists of tokens.
  have notMark : token.symbol ≠ mark.symbol := by
    intro same
    have kinds : token.kind = mark.kind := congrArg Symbol.kind same
    rw [isWord, hmark] at kinds
    cases kinds
  have within_found : token ∈ found := by
    rcases List.mem_append.1 mem with mem | mem
    · exact mem
    · exact absurd (congrArg Token.symbol (List.mem_singleton.1 mem)) notMark
  obtain ⟨front, back, rfl⟩ := List.append_of_mem within_found
  have hsymbol : token.symbol = .word token.value := by rw [Token.symbol, isWord]
  have symbols : Token.symbols (front ++ token :: back) =
      Token.symbols front ++ .word token.value :: Token.symbols back := by
    rw [← hsymbol]
    simp [Token.symbols]
  -- Both sources are read, and the text between them is scanned to the symbols between.
  have reads := reads_of_parse hparse
  have readsInner := reads_of_parse hparseInner
  rw [hspelt, symbols] at reads
  rw [hspeltInner] at readsInner
  have onceFound : (Token.symbols front ++ .word token.value :: Token.symbols back).count
      (.word token.value) = 1 := by
    have all : Token.symbols (front ++ token :: back ++ [mark]) =
        Token.symbols (front ++ token :: back) ++ [mark.symbol] := List.map_append
    have absent : [mark.symbol].count token.symbol = 0 :=
      List.count_eq_zero.2 (by simpa using notMark)
    rw [all, List.count_append, absent, Nat.add_zero, symbols, hsymbol] at once
    exact once
  have isName := (spellable_of_expr parsed).isName node
  obtain ⟨unique, readsWhole⟩ :=
    reads_embed isName.1.not_isIndexName isName.2 readsInner reads onceFound node
  obtain ⟨before, after, hcontext, position, scans⟩ :=
    scans_embed (by rw [isWord]; decide) tokenizes tokenizesInner
  refine ⟨unique, ?_⟩
  have split : context = String.ofList before ++ token.value ++ String.ofList after := by
    rw [← String.toList_inj, hcontext]
    simp
  rw [replace_eq split (by rw [String.toList_ofList]; exact position)]
  have text : (String.ofList before ++ ("(" ++ inner ++ ")") ++ String.ofList after).toList =
      before ++ '(' :: (inner.toList ++ ')' :: after) := by simp
  rw [← text] at scans
  obtain ⟨final, hscanFinal, hspeltFinal⟩ := Token.scan_of_scans scans
  rw [← hspeltFinal] at readsWhole
  rcases parse_of_reads readsWhole with hparse | ⟨error, hparse, cause⟩
  · exact .inl (expr_eq_ok_iff.2 ⟨final, hscanFinal, hparse⟩)
  · refine .inr ⟨.parse error, ?_, by rw [Failure.code, ParseError.code, cause]⟩
    rw [expr, tokens_eq_ok_iff.2 hscanFinal]
    simp only [hparse, Except.mapError]

/-- A sum in place of a name between a prefix operator and a property. -/
theorem expr_embed_sum :
    replace "-x.y * f(a)" ⟨.identifier, ⟨1, 1⟩, "x"⟩ "(b + c)" = "-(b + c).y * f(a)" ∧
      expr "-(b + c).y * f(a)" = .ok (.binary "*"
        (.unary "-" (.property (.binary "+" (.identifier "b") (.identifier "c")) "y"))
        (.call "f" [.identifier "a"])) := by
  have parsed : expr "-x.y * f(a)" = .ok (.binary "*"
      (.unary "-" (.property (.identifier "x") "y")) (.call "f" [.identifier "a"])) := by
    with_unfolding_all rfl
  have embedded : expr "b + c" = .ok (.binary "+" (.identifier "b") (.identifier "c")) := by
    with_unfolding_all rfl
  have scanned : ∃ tokens, Source.tokens "-x.y * f(a)" = .ok tokens ∧
      ⟨.identifier, ⟨1, 1⟩, "x"⟩ ∈ tokens ∧ (Token.symbols tokens).count (.word "x") = 1 :=
    ⟨_, by with_unfolding_all rfl, by decide, by decide⟩
  obtain ⟨tokens, scanned, mem, once⟩ := scanned
  have replaced : replace "-x.y * f(a)" ⟨.identifier, ⟨1, 1⟩, "x"⟩ "(b + c)" =
      "-(b + c).y * f(a)" := by decide
  refine ⟨replaced, ?_⟩
  obtain ⟨-, result | ⟨failure, failed, -⟩⟩ :=
    expr_embed parsed embedded scanned mem rfl once (by decide)
  · rw [← replaced]
    exact result
  · have read : ∃ tree, expr "-(b + c).y * f(a)" = .ok tree := ⟨_, by with_unfolding_all rfl⟩
    obtain ⟨tree, read⟩ := read
    rw [← replaced] at read
    cases read.symm.trans failed

end Source

end ExprMachine
