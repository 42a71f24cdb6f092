/-
  ExprMachine.Proofs.Token.Placing

  Where the tokens of a source stand: each at the place that the characters before it
  reach, with its lexeme at the front of what is left of the source there. A source can be
  cut between any two tokens and go on differently from there.
-/
import ExprMachine.Proofs.Token.Seams

namespace ExprMachine

-- ============================================================================
-- Places
-- ============================================================================

namespace Position

theorem advanceAll_of_not_mem {place : Position} {text : List Char} (h : '\n' ∉ text) :
    place.advanceAll text = ⟨place.line, place.offset + text.length⟩ := by
  induction text generalizing place with
  | nil => rfl
  | cons c text ih =>
    rw [List.mem_cons, not_or] at h
    rw [advanceAll_cons, advance, if_neg (Ne.symm h.1), ih h.2, List.length_cons,
      Nat.add_assoc, Nat.add_comm 1]

/-- The place after some characters is on a later line, or further to the right. -/
theorem advanceAll_later (place : Position) (text : List Char) :
    place.line < (place.advanceAll text).line ∨
      (place.advanceAll text).line = place.line ∧
        (place.advanceAll text).offset = place.offset + text.length := by
  induction text generalizing place with
  | nil => exact .inr ⟨rfl, rfl⟩
  | cons c text ih =>
    rw [advanceAll_cons, List.length_cons]
    have later := ih (place.advance c)
    by_cases newline : c = '\n'
    · rw [advance, if_pos newline] at later ⊢
      simp only at later
      omega
    · rw [advance, if_neg newline] at later ⊢
      simp only at later
      omega

theorem advanceAll_ne (place : Position) (c : Char) (text : List Char) :
    place ≠ place.advanceAll (c :: text) := by
  intro same
  have later := advanceAll_later place (c :: text)
  rw [← same, List.length_cons] at later
  omega

end Position

namespace Source

/-- The characters before a place and those from it on, for a source that starts at
    another place. -/
def cut (start place : Position) : List Char → List Char × List Char
  | [] => ([], [])
  | c :: rest =>
    if start = place then ([], c :: rest)
    else
      let (before, after) := cut (start.advance c) place rest
      (c :: before, after)

theorem cut_append (start : Position) (before after : List Char) :
    cut start (start.advanceAll before) (before ++ after) = (before, after) := by
  induction before generalizing start with
  | nil => cases after <;> simp [cut]
  | cons c before ih =>
    rw [List.cons_append, cut, if_neg (Position.advanceAll_ne start c before),
      Position.advanceAll_cons, ih]

/-- The source with a text in place of a token, which says its own characters. -/
def replace (source : String) (token : Token) (text : String) : String :=
  let (before, after) := cut .start token.position source.toList
  String.ofList before ++ text ++ String.ofList (after.drop token.value.length)

theorem replace_eq {before after source text : String} {token : Token}
    (h : source = before ++ token.value ++ after)
    (position : token.position = Position.start.advanceAll before.toList) :
    replace source token text = before ++ text ++ after := by
  subst h
  rw [replace, position, String.toList_append, String.toList_append, List.append_assoc,
    cut_append, ← String.length_toList]
  simp

end Source

-- ============================================================================
-- One token
-- ============================================================================

/-- A token that is no text literal says its own characters. -/
theorem Lexes.source_eq {keywords : List String} {source left : List Char} {symbol : Symbol}
    (h : Lexes keywords source symbol left) (notText : symbol.kind ≠ .text) :
    source = symbol.value.toList ++ left := by
  cases h with
  | text => exact absurd rfl notText
  | number _ read => rw [String.toList_ofList, Lexeme.number_append read]
  | point | bracket | lone | pair | half => rw [String.toList_ofList]; rfl
  | keyword _ hword hrest | word _ hword hrest =>
    rw [String.toList_ofList, ← hword, ← hrest, List.takeWhile_append_dropWhile]

namespace Token

/-- The scanner moves on by a blank. -/
theorem cursor_of_next_blank {keywords : List String} {place : Position} {c : Char}
    {rest : List Char} {cursor : Cursor} (h : next keywords place c rest = .ok (none, cursor)) :
    cursor = ⟨rest, place.advance c⟩ := by
  have isBlank := (blank_of_next h).1
  simpa [next, isBlank] using h.symm

/-- The scanner moves on by the lexeme of the token that it finds. -/
theorem place_of_next {keywords : List String} {place : Position} {c : Char}
    {rest : List Char} {token : Token} {cursor : Cursor}
    (h : next keywords place c rest = .ok (some token, cursor)) :
    token.position = place ∧ ∃ lexeme, c :: rest = lexeme ++ cursor.rest ∧
      cursor.position = place.advanceAll lexeme := by
  cases found_of_next h with
  | text opens read =>
    unfold nextText at read
    split at read
    · rename_i content length after hread
      cases read
      have printable : c ≠ '\n' := by rcases opens with rfl | rfl <;> decide
      obtain ⟨body, rfl, rfl, newlineFree, -⟩ := Lexeme.textFrom_append printable hread
      refine ⟨rfl, c :: body, rfl, ?_⟩
      have notMem : '\n' ∉ c :: body := by simp [printable.symm, newlineFree]
      rw [Position.advanceAll_of_not_mem notMem, List.length_cons, Nat.add_comm 1]
    · cases read
  | number _ read =>
    unfold nextNumber at read
    split at read
    · rename_i lexeme after hread
      cases read
      exact ⟨rfl, lexeme, (Lexeme.number_append hread).symm, rfl⟩
    · cases read
  | point | bracket | lone | half => exact ⟨rfl, [c], rfl, rfl⟩
  | @pair d after _ hrest => exact ⟨rfl, [c, d], by rw [hrest]; rfl, rfl⟩
  | word =>
    exact ⟨rfl, (c :: rest).takeWhile Lexeme.isWordPart,
      List.takeWhile_append_dropWhile.symm, rfl⟩

/-- The scanner finds a token at its place and moves on by its lexeme. -/
theorem next_of_lexeme {keywords : List String} {lexeme rest : List Char} {token : Token}
    (lexes : Lexes keywords (lexeme ++ rest) token.symbol rest) :
    ∃ c tail, lexeme ++ rest = c :: tail ∧ next keywords token.position c tail =
      .ok (some token, ⟨rest, token.position.advanceAll lexeme⟩) := by
  obtain ⟨c, tail, hsource, hnext⟩ := next_of_lexes lexes
  obtain ⟨found, cursor, moved, hsymbol, hrest⟩ := hnext token.position
  obtain ⟨hplace, taken, htaken, hafter⟩ := place_of_next moved
  rw [← hsource, hrest] at htaken
  obtain rfl := List.append_cancel_right htaken
  obtain ⟨left, reached⟩ := cursor
  obtain ⟨kind, place, value⟩ := token
  obtain ⟨kind', place', value'⟩ := found
  cases hrest
  cases hafter
  cases hplace
  cases hsymbol
  exact ⟨c, tail, hsource, moved⟩

end Token

-- ============================================================================
-- All tokens up to some place
-- ============================================================================

/-- `Tokenizes keywords place source tokens rest`: from the place on the source has the
    tokens, with blanks before them, and the rest of it is left. -/
inductive Tokenizes (keywords : List String) :
    Position → List Char → List Token → List Char → Prop where
  | done {place rest} : Tokenizes keywords place rest [] rest
  | blank {place c source tokens rest} (isBlank : Text.isBlank c = true)
      (more : Tokenizes keywords (place.advance c) source tokens rest) :
      Tokenizes keywords place (c :: source) tokens rest
  | token {place token lexeme between tokens rest} (starts : token.position = place)
      (lexes : Lexes keywords (lexeme ++ between) token.symbol between)
      (more : Tokenizes keywords (place.advanceAll lexeme) between tokens rest) :
      Tokenizes keywords place (lexeme ++ between) (token :: tokens) rest

/-- Whatever the scanner finds stands where its tokens say. -/
theorem Token.tokenizes_of_scanFrom {keywords : List String} {found : Array Token}
    {cursor : Cursor} {tokens : List Token} (h : scanFrom keywords found cursor = .ok tokens) :
    ∃ more mark, tokens = found.toList ++ more ++ [mark] ∧ mark.kind = .endOfInput ∧
      Tokenizes keywords cursor.position cursor.rest more [] := by
  fun_induction scanFrom keywords found cursor with
  | case1 found cursor hrest =>
    cases h
    exact ⟨[], ⟨.endOfInput, cursor.position, ""⟩, by simp, rfl, hrest ▸ .done⟩
  | case2 => cases h
  | case3 found cursor c rest hrest after hnext ih =>
    obtain ⟨more, mark, htokens, hmark, tokenizes⟩ := ih h
    refine ⟨more, mark, htokens, hmark, ?_⟩
    rw [hrest]
    rw [cursor_of_next_blank hnext] at tokenizes
    exact .blank (blank_of_next hnext).1 tokenizes
  | case4 found cursor c rest hrest token after hnext ih =>
    obtain ⟨more, mark, htokens, hmark, tokenizes⟩ := ih h
    have lexes := lexes_of_next hnext
    obtain ⟨starts, lexeme, hsource, hplace⟩ := place_of_next hnext
    refine ⟨token :: more, mark, by simp [htokens], hmark, ?_⟩
    rw [hsource] at lexes
    rw [hplace] at tokenizes
    rw [hrest, hsource]
    exact .token starts lexes tokenizes

/-- The scanner finds all tokens of what is left, and then the end. -/
theorem Token.scanFrom_of_tokenizes {keywords : List String} {place : Position}
    {source : List Char} {tokens : List Token} (h : Tokenizes keywords place source tokens [])
    (found : Array Token) :
    scanFrom keywords found ⟨source, place⟩ =
      .ok (found.toList ++ tokens ++ [⟨.endOfInput, place.advanceAll source, ""⟩]) := by
  generalize hrest : ([] : List Char) = rest at h
  induction h generalizing found with
  | done =>
    rw [← hrest, scanFrom_nil rfl, List.append_nil]
    rfl
  | @blank place c source tokens rest isBlank _ ih =>
    have moved : next keywords place c source = .ok (none, ⟨source, place.advance c⟩) := by
      simp [next, isBlank]
    rw [scanFrom_blank rfl moved]
    exact ih found hrest
  | @token place token lexeme between tokens rest starts lexes _ ih =>
    obtain rfl := starts
    obtain ⟨c, tail, hsource, moved⟩ := next_of_lexeme lexes
    rw [Position.advanceAll_append, hsource, scanFrom_token rfl moved, ih _ hrest]
    simp

theorem Token.scan_of_tokenizes {keywords : List String} {source : String}
    {tokens : List Token} (h : Tokenizes keywords .start source.toList tokens []) :
    scan keywords source =
      .ok (tokens ++ [⟨.endOfInput, Position.start.advanceAll source.toList, ""⟩]) := by
  rw [scan, scanFrom_of_tokenizes h]
  rfl

namespace Tokenizes

variable {keywords : List String} {place : Position} {source rest : List Char}
  {tokens : List Token}

theorem blanks {gap : List Char} (h : ∀ c ∈ gap, Text.isBlank c = true)
    (more : Tokenizes keywords (place.advanceAll gap) source tokens rest) :
    Tokenizes keywords place (gap ++ source) tokens rest := by
  induction gap generalizing place with
  | nil => exact more
  | cons c gap ih =>
    obtain ⟨hc, hgap⟩ := List.forall_mem_cons.1 h
    exact .blank hc (ih hgap more)

/-- The symbols of the tokens, and of whatever the rest spells. -/
theorem scans {symbols : List Symbol} (h : Tokenizes keywords place source tokens rest)
    (more : Scans keywords rest symbols) :
    Scans keywords source (Token.symbols tokens ++ symbols) := by
  induction h with
  | done => exact more
  | blank isBlank _ ih => exact .blank isBlank (ih more)
  | token _ lexes _ ih => exact .token lexes (ih more)

theorem isEnd_eq_false (h : Tokenizes keywords place source tokens rest) :
    ∀ token ∈ tokens, token.isEnd = false := by
  induction h with
  | done => simp
  | blank _ _ ih => exact ih
  | token _ lexes _ ih => exact List.forall_mem_cons.2 ⟨Token.isEnd_of_lexes lexes, ih⟩

/-- Every token stands at the place that the characters before it reach. -/
theorem split {front back : List Token} {token : Token}
    (h : Tokenizes keywords place source (front ++ token :: back) rest) :
    ∃ before lexeme after, source = before ++ (lexeme ++ after) ∧
      token.position = place.advanceAll before ∧
        Tokenizes keywords place source front (lexeme ++ after) ∧
          Lexes keywords (lexeme ++ after) token.symbol after ∧
            Tokenizes keywords (token.position.advanceAll lexeme) after back rest := by
  generalize hall : front ++ token :: back = all at h
  induction h generalizing front with
  | done => simp at hall
  | @blank place c source tokens rest isBlank _ ih =>
    obtain ⟨before, lexeme, after, rfl, position, hfront, lexes, hback⟩ := ih hall
    exact ⟨c :: before, lexeme, after, rfl, position, .blank isBlank hfront, lexes, hback⟩
  | @token place first lexeme between tokens rest starts lexes more ih =>
    cases front with
    | nil =>
      obtain ⟨rfl, rfl⟩ := List.cons.inj hall
      exact ⟨[], lexeme, between, rfl, starts, .done, lexes, starts ▸ more⟩
    | cons other front =>
      obtain ⟨rfl, htokens⟩ := List.cons.inj hall
      obtain ⟨before, lexeme', after, rfl, position, hfront, lexes', hback⟩ := ih htokens
      refine ⟨lexeme ++ before, lexeme', after, by rw [List.append_assoc], ?_,
        .token starts lexes hfront, lexes', hback⟩
      rw [Position.advanceAll_append]
      exact position

/-- The tokens stay the same when the source goes on differently after them. -/
theorem resume {c : Char} (h : Tokenizes keywords place source tokens rest)
    (stops : Lexeme.breaks c = true) (other : List Char) :
    ∃ taken, source = taken ++ rest ∧
      Tokenizes keywords place (taken ++ c :: other) tokens (c :: other) := by
  have resumes (taken : List Char) : Lexeme.Resumes (taken ++ rest) (taken ++ c :: other) :=
    (Lexeme.Resumes.here stops).append taken
  induction h with
  | done => exact ⟨[], rfl, .done⟩
  | @blank place d source tokens rest isBlank _ ih =>
    obtain ⟨taken, rfl, more⟩ := ih resumes
    exact ⟨d :: taken, rfl, .blank isBlank more⟩
  | @token place token lexeme between tokens rest starts lexes _ ih =>
    obtain ⟨taken, rfl, more⟩ := ih resumes
    obtain ⟨lexeme', hlexeme, lexes'⟩ := lexes.resume (resumes taken)
    obtain rfl := List.append_cancel_right hlexeme
    refine ⟨lexeme ++ taken, by rw [List.append_assoc], ?_⟩
    rw [List.append_assoc]
    exact .token starts lexes' more

end Tokenizes

/-- The tokens of a whole source, before the mark of its end. -/
theorem Token.tokenizes_of_scan {keywords : List String} {source : String}
    {tokens : List Token} (h : scan keywords source = .ok tokens) :
    ∃ found mark, tokens = found ++ [mark] ∧ mark.kind = .endOfInput ∧
      spelt tokens = symbols found ∧ Tokenizes keywords .start source.toList found [] := by
  obtain ⟨found, mark, rfl, hmark, tokenizes⟩ := tokenizes_of_scanFrom h
  refine ⟨found, mark, rfl, hmark, ?_, tokenizes⟩
  have ends : ∀ token ∈ found, (!token.isEnd) = true := by
    simpa using tokenizes.isEnd_eq_false
  rw [spelt, List.nil_append, List.takeWhile_append_of_pos ends]
  simp [isEnd, hmark]

end ExprMachine
