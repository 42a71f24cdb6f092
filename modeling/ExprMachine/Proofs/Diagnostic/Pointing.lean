/-
  ExprMachine.Proofs.Diagnostic.Pointing

  Diagnostics point inside the source. The error of a source is in one of its lines, and
  the rendering shows this line and puts the mark under the character that the error is at:
  the lines that the scanner counts are those that the rendering cuts the source into.
-/
import ExprMachine.Diagnostic.Terminal
import ExprMachine.Proofs.Token.Faults
import ExprMachine.Proofs.Token.Widening

namespace ExprMachine

-- ============================================================================
-- Errors of the parser
-- ============================================================================

/-- An error has no newline where the token to blame for it says none. -/
theorem ParseError.Blames.oneLine {error : ParseError} {token : Token} (h : error.Blames token)
    (described : OneLine token.description.toList)
    (number : token.kind = .number → OneLine token.value.toList) :
    OneLine error.message.toList := by
  obtain ⟨position, cause⟩ := error
  have about := h.about
  have close (kind : SequenceKind) : OneLine kind.close.toList := by
    cases kind <;> exact .literal (by decide)
  have sequence (kind : SequenceKind) : OneLine kind.description.toList := by
    cases kind <;> exact .literal (by decide)
  -- The place is no part of the message.
  show OneLine (ParseError.message ⟨.start, cause⟩).toList
  cases cause with
  | unexpectedToken found | expectedName found =>
    obtain rfl := about
    exact .concat (.literal (by decide)) described
  | expectedClose bracket found =>
    obtain ⟨rfl, rfl⟩ := about
    have bracket := close .arguments
    exact .concat (.between (.literal (by decide)) bracket (.literal (by decide))) described
  | expectedComma kind found =>
    obtain rfl := about
    have bracket : OneLine ("expected ',' or '" ++ kind.close ++ "' in ").toList :=
      .between (.literal (by decide)) (close kind) (.literal (by decide))
    exact .concat (.between bracket (sequence kind) (.literal (by decide))) described
  | expectedIndex found | invalidFloat found | integerOutOfRange found =>
    obtain ⟨isNumber, rfl⟩ := about
    exact .between (.literal (by decide)) (number isNumber) (.literal (by decide))
  | strayComma kind | trailingComma kind =>
    exact .concat (.literal (by decide)) (sequence kind)
  | unclosedSequence kind =>
    have opened : OneLine ("unclosed " ++ kind.description ++ ", expected '").toList :=
      .between (.literal (by decide)) (sequence kind) (.literal (by decide))
    exact .between opened (close kind) (.literal (by decide))
  | unexpectedEnd | unclosedParenthesis => exact .literal (by decide)
  | nestedTooDeeply =>
    exact .between (.literal (by decide)) (.toString_nat _) (.literal (by decide))

namespace Expr

/-- The tokens before the mark of the end. -/
theorem takeWhile_found {keywords : List String} {source : List Char} {found : List Token}
    (h : Tokenizes keywords .start source found []) (place : Position) :
    (found ++ [(⟨.endOfInput, place, ""⟩ : Token)]).takeWhile (!·.isEnd) = found ∧
      Parser.endPosition (found ++ [⟨.endOfInput, place, ""⟩]) = place := by
  have ends : ∀ token ∈ found, (!token.isEnd) = true := by
    simpa using h.isEnd_eq_false
  constructor
  · rw [List.takeWhile_append_of_pos ends]
    simp [Token.isEnd]
  · have none : found.find? Token.isEnd = none := List.find?_eq_none.2 (by simpa using ends)
    rw [Parser.endPosition, List.find?_append, none]
    rfl

/-- The error of the tokens of a source is at a place in it, and its message has no
    newline. -/
theorem holds_of_parse {keywords : List String} {grammar : Grammar} {source : String}
    {tokens : List Token} {error : ParseError} (scanned : Token.scan keywords source = .ok tokens)
    (h : parse grammar tokens = .error error) :
    Source.Holds source error.position ∧ OneLine error.message.toList := by
  obtain ⟨found, rfl, -, tokenizes⟩ := Token.marked_of_scan scanned
  obtain ⟨front, last⟩ := takeWhile_found tokenizes (.after source.toList)
  obtain ⟨token, stands, blames⟩ := exists_blames_of_parse h
  rw [front, last] at stands
  rcases stands with hmem | rfl
  · obtain ⟨before, after, rfl⟩ := List.append_of_mem hmem
    obtain ⟨text, lexeme, rest, hsource, position, -, lexes, -⟩ := tokenizes.split
    refine ⟨⟨text, lexeme ++ rest, hsource, ?_⟩, ?_⟩
    · rw [blames.position, position, Position.advanceAll_start]
    · exact blames.oneLine lexes.oneLine_description fun number =>
        lexes.oneLine (by simp [Token.symbol, number])
  · refine ⟨⟨source.toList, [], (List.append_nil _).symm, blames.position⟩, ?_⟩
    refine blames.oneLine ?_ fun number => by cases number
    exact .literal (by decide)

end Expr

-- ============================================================================
-- Rows of a rendering
-- ============================================================================

namespace Diagnostic

/-- The row of the code and the message. -/
def headRow (diagnostic : Diagnostic) (code : String) : String :=
  severity ++ "[" ++ code ++ "]" ++ ": " ++ diagnostic.message

/-- What stands before the line of the source. -/
def gutter (line : Nat) : String := toString line ++ " | "

/-- The column of the gutter in the other rows. -/
def margin (line : Nat) : String := copies (toString line).length ' ' ++ " |"

/-- The row of the mark. -/
def markRow (label : Label) : String :=
  margin label.position.line ++ " " ++ copies label.position.offset ' ' ++
    copies (max label.length 1) '^' ++ (if label.message.isEmpty then "" else " " ++ label.message)

/-- The rows of a snippet. -/
def snippetRows (source : String) (label : Label) : List String :=
  ["  --> " ++ toString label.position.line ++ ":" ++ toString (label.position.offset + 1),
   margin label.position.line,
   gutter label.position.line ++ Source.lineText source label.position.line,
   markRow label,
   margin label.position.line]

/-- Some rows, with the newlines after them. -/
def textOfRows (rows : List String) : String :=
  String.join (rows.map (· ++ "\n"))

theorem lines_textOfRows {rows : List String} (h : ∀ row ∈ rows, OneLine row.toList)
    (rest : String) :
    Source.lines (textOfRows rows ++ rest) = rows.map String.toList ++ Source.lines rest := by
  unfold Source.lines
  induction rows with
  | nil =>
    show ("" ++ rest).toList.splitOn '\n' = _
    rw [String.empty_append]
    rfl
  | cons row rows ih =>
    obtain ⟨first, others⟩ := List.forall_mem_cons.1 h
    have newline : "\n".toList = ['\n'] := by decide
    have next : (textOfRows (row :: rows) ++ rest).toList =
        row.toList ++ '\n' :: (textOfRows rows ++ rest).toList := by
      simp only [textOfRows, List.map_cons, String.join_cons, String.toList_append, newline,
        List.append_assoc, List.cons_append, List.nil_append]
    rw [next, List.splitOn_append_cons_self_of_not_mem first, ih others]
    rfl

theorem headLine_eq {diagnostic : Diagnostic} {code : String}
    (hcode : diagnostic.code = some code) :
    headLine false diagnostic = headRow diagnostic code ++ "\n" := by
  unfold headLine
  rw [hcode]
  rfl

theorem snippet_eq (source : String) (label : Label) :
    snippet false source label = textOfRows (snippetRows source label) := by
  have plain (style text : String) : paint false style text = text := rfl
  have arrow : "  --> ".toList = "  ".toList ++ ("-->".toList ++ " ".toList) := by decide
  have column : " |".toList = " ".toList ++ "|".toList := by decide
  have bar : " | ".toList = " ".toList ++ ("|".toList ++ " ".toList) := by decide
  have nothing : "".toList = [] := by decide
  rw [← String.toList_inj]
  unfold snippet
  simp only [cyan, boldRed, plain, textOfRows, snippetRows, markRow, margin, gutter, List.map_cons,
    List.map_nil, String.join_cons, String.join_nil, String.toList_append, List.append_assoc]
  rw [arrow, bar, column, nothing]
  simp only [List.append_assoc, List.append_nil]

theorem oneLine_copies (count : Nat) {c : Char} (h : c ≠ '\n') :
    OneLine (copies count c).toList := by
  rw [copies, String.toList_ofList]
  exact fun hmem => h (List.eq_of_mem_replicate hmem).symm

theorem oneLine_lineText (source : String) (number : Nat) :
    OneLine (Source.lineText source number).toList := by
  unfold Source.lineText
  split
  · decide
  · rename_i index
    rw [String.toList_ofList]
    have shown : OneLine ((Source.lines source)[index]?.getD []) := by
      cases hline : (Source.lines source)[index]? with
      | none => exact List.not_mem_nil
      | some line => exact Source.oneLine_of_mem_splitOn (List.mem_of_getElem? hline)
    exact fun hmem => shown ((List.rdropWhile_prefix _ _).subset hmem)

theorem oneLine_snippetRows (source : String) {label : Label}
    (message : OneLine label.message.toList) :
    ∀ row ∈ snippetRows source label, OneLine row.toList := by
  have hmargin : OneLine (margin label.position.line).toList := by
    exact .concat (oneLine_copies _ (by decide)) (by decide)
  have harrow : OneLine ("  --> " ++ toString label.position.line ++ ":" ++
      toString (label.position.offset + 1)).toList :=
    .concat (.between (by decide) (.toString_nat _) (by decide)) (.toString_nat _)
  have hsource : OneLine (gutter label.position.line ++
      Source.lineText source label.position.line).toList :=
    .between (.toString_nat _) (by decide) (oneLine_lineText _ _)
  have hmark : OneLine (markRow label).toList := by
    have spaces : OneLine (copies label.position.offset ' ').toList :=
      oneLine_copies _ (by decide)
    have marks : OneLine (copies (max label.length 1) '^').toList := oneLine_copies _ (by decide)
    have said : OneLine (if label.message.isEmpty then "" else " " ++ label.message).toList := by
      split
      · decide
      · exact .concat (by decide) message
    exact .between (.between hmargin (by decide) spaces) marks said
  simp only [snippetRows, List.forall_mem_cons]
  exact ⟨harrow, hmargin, hsource, hmark, hmargin, fun _ h => absurd h List.not_mem_nil⟩

/-- The rows of a rendering without colour start with those of the message and the
    snippet. -/
theorem lines_render {diagnostic : Diagnostic} {label : Label} {code : String} (source : String)
    (labels : diagnostic.labels = [label]) (primary : label.isPrimary = true)
    (hcode : diagnostic.code = some code) (codeLine : OneLine code.toList)
    (messageLine : OneLine diagnostic.message.toList) (labelLine : OneLine label.message.toList) :
    ∃ more, Source.lines (render false (diagnostic.withSource source)) =
      (headRow diagnostic code :: snippetRows source label).map String.toList ++ more := by
  have found : (diagnostic.withSource source).labels.find? Label.isPrimary = some label := by
    rw [withSource, labels, List.find?_cons_of_pos primary]
  have hhead : OneLine (headRow diagnostic code).toList := by
    have opening : OneLine (severity ++ "[").toList := by decide
    exact .concat (.concat (.between opening codeLine (by decide)) (by decide)) messageLine
  have rows : ∀ row ∈ headRow diagnostic code :: snippetRows source label, OneLine row.toList :=
    List.forall_mem_cons.2 ⟨hhead, oneLine_snippetRows source labelLine⟩
  have text : render false (diagnostic.withSource source) =
      textOfRows (headRow diagnostic code :: snippetRows source label) ++
        String.join (((diagnostic.withSource source).notes.map (remark false "note")) ++
          ((diagnostic.withSource source).suggestion.toList.map (remark false "suggestion"))) := by
    have head := @headLine_eq (diagnostic.withSource source) code hcode
    unfold render
    rw [found, head]
    simp only [withSource, String.join_cons, snippet_eq, textOfRows, List.map_cons,
      String.append_assoc]
    rfl
  rw [text, lines_textOfRows rows]
  exact ⟨_, rfl⟩

-- ============================================================================
-- Pointing
-- ============================================================================

/-- `Points source place rendered`: the place is in a line of the source, and of the rows of
    the rendering one shows this line, without carriage returns at its end, and the one
    below has its first mark in the column of the place. -/
structure Points (source : String) (place : Position) (rendered : String) : Prop where
  line_pos : 1 ≤ place.line
  line_le : place.line ≤ Source.lineCount source
  shows : ∃ line marks, (Source.lines source)[place.line - 1]? = some line ∧
    place.offset ≤ line.length ∧
      (Source.lines rendered)[3]? =
        some ((gutter place.line).toList ++ line.rdropWhile (· = '\r')) ∧
      (Source.lines rendered)[4]? = some marks ∧ '^' ∈ marks ∧
        marks.idxOf '^' = (gutter place.line).toList.length + place.offset

theorem lineText_of_getElem? {source : String} {number : Nat} {line : List Char}
    (pos : 1 ≤ number) (h : (Source.lines source)[number - 1]? = some line) :
    (Source.lineText source number).toList = line.rdropWhile (· = '\r') := by
  obtain ⟨index, rfl⟩ : ∃ index, number = index + 1 := ⟨number - 1, by omega⟩
  rw [Nat.add_sub_cancel] at h
  rw [Source.lineText, h, String.toList_ofList]
  rfl

/-- The first mark of a row stands as far to the right as the gutter and the place say. -/
theorem markRow_idxOf (label : Label) :
    '^' ∈ (markRow label).toList ∧ (markRow label).toList.idxOf '^' =
      (gutter label.position.line).toList.length + label.position.offset := by
  obtain ⟨more, hmore⟩ : ∃ more, (copies (max label.length 1) '^').toList = '^' :: more := by
    obtain ⟨count, hcount⟩ : ∃ count, max label.length 1 = count + 1 :=
      ⟨max label.length 1 - 1, by omega⟩
    rw [copies, String.toList_ofList, hcount, List.replicate_succ]
    exact ⟨_, rfl⟩
  let before := (margin label.position.line ++ " " ++ copies label.position.offset ' ').toList
  have split : ∃ after, (markRow label).toList = before ++ '^' :: after := by
    rw [markRow, String.toList_append, String.toList_append, hmore]
    exact ⟨_, by rw [List.append_assoc, List.cons_append]⟩
  have unmarked : '^' ∉ before := by
    have spaces (count : Nat) : '^' ∉ (copies count ' ').toList := by
      rw [copies, String.toList_ofList]
      exact fun h => absurd (List.eq_of_mem_replicate h) (by decide)
    have column : '^' ∉ " |".toList := by decide
    have space : '^' ∉ " ".toList := by decide
    simp only [before, margin, String.toList_append, List.mem_append, not_or]
    exact ⟨⟨⟨spaces _, column⟩, space⟩, spaces _⟩
  have width : before.length =
      (gutter label.position.line).toList.length + label.position.offset := by
    have column : " |".toList.length = 2 := by decide
    have space : " ".toList.length = 1 := by decide
    have bar : " | ".toList.length = 3 := by decide
    simp only [before, margin, gutter, copies, String.toList_append, String.toList_ofList,
      List.length_append, List.length_replicate, String.length_toList] at column space bar ⊢
    omega
  obtain ⟨after, split⟩ := split
  rw [split, List.idxOf_append_of_notMem unmarked, List.idxOf_cons_self, width]
  exact ⟨by simp, rfl⟩

/-- A diagnostic with one label points where the label is. -/
theorem points_of_holds {diagnostic : Diagnostic} {label : Label} {code source : String}
    (labels : diagnostic.labels = [label]) (primary : label.isPrimary = true)
    (hcode : diagnostic.code = some code) (codeLine : OneLine code.toList)
    (messageLine : OneLine diagnostic.message.toList) (labelLine : OneLine label.message.toList)
    (holds : Source.Holds source label.position) :
    Points source label.position (render false (diagnostic.withSource source)) := by
  obtain ⟨pos, le, line, hline, offset⟩ := holds.exists_line
  obtain ⟨more, rows⟩ := lines_render source labels primary hcode codeLine messageLine labelLine
  have shown := lineText_of_getElem? pos hline
  obtain ⟨marked, column⟩ := markRow_idxOf label
  refine ⟨pos, le, line, (markRow label).toList, hline, offset, ?_, ?_, marked, column⟩
  · rw [rows, ← shown, ← String.toList_append]
    rfl
  · rw [rows]
    rfl

theorem points_ofLexError {source : String} {error : LexError}
    (holds : Source.Holds source error.position) (message : OneLine error.message.toList) :
    Points source error.position (render false ((ofLexError error).withSource source)) := by
  have code : OneLine error.code.toList := by
    unfold LexError.code
    split <;> decide
  have label : OneLine (labelAt error.position "here").message.toList := by
    show OneLine "here".toList
    decide
  exact points_of_holds rfl rfl rfl code message label holds

theorem points_ofParseError {source : String} {error : ParseError}
    (holds : Source.Holds source error.position) (message : OneLine error.message.toList) :
    Points source error.position (render false ((ofParseError error).withSource source)) := by
  have code : OneLine error.code.toList := by
    unfold ParseError.code
    split <;> decide
  have label : OneLine (if isUnclosed error.cause then "opened here" else "here").toList := by
    split <;> decide
  exact @points_of_holds _ (labelAt error.position _) _ _ rfl rfl rfl code message label holds

end Diagnostic

/-- The place of a failure before there is an expression. -/
def Failure.place? : Failure → Option Position
  | .lex error => some error.position
  | .parse error => some error.position
  | .compile _ | .run _ => none

/-- Whatever is wrong with a source that has no tokens or is no expression is at a place in
    it, and the rendering points there. -/
theorem Source.expr_error_points {source : String} {failure : Failure}
    (h : expr source = .error failure) :
    ∃ place, failure.place? = some place ∧ Diagnostic.Points source place
      (Diagnostic.render false ((Diagnostic.ofFailure failure).withSource source)) := by
  unfold expr tokens at h
  cases scanned : Token.scan Token.standardKeywords source with
  | error error =>
    rw [scanned] at h
    obtain rfl : Failure.lex error = failure := Except.error.inj h
    obtain ⟨holds, message⟩ := Token.holds_of_scan scanned
    exact ⟨error.position, rfl, Diagnostic.points_ofLexError holds message⟩
  | ok tokens =>
    rw [scanned] at h
    cases parsed : Expr.parse .standard tokens with
    | ok tree =>
      simp only [Except.mapError, parsed] at h
      cases h
    | error error =>
      simp only [Except.mapError, parsed] at h
      obtain rfl : Failure.parse error = failure := Except.error.inj h
      obtain ⟨holds, message⟩ := Expr.holds_of_parse scanned parsed
      exact ⟨error.position, rfl, Diagnostic.points_ofParseError holds message⟩

/-- An open parenthesis in the second line is pointed at, not the end of the source. -/
theorem Source.expr_error_points_opened : Diagnostic.Points "a +\r\n\t(b\n" ⟨2, 1⟩
    (Diagnostic.render false ((Diagnostic.ofFailure
      (.parse ⟨⟨2, 1⟩, .unclosedParenthesis⟩)).withSource "a +\r\n\t(b\n")) := by
  have failed : expr "a +\r\n\t(b\n" = .error (.parse ⟨⟨2, 1⟩, .unclosedParenthesis⟩) := by
    with_unfolding_all rfl
  obtain ⟨place, hplace, points⟩ := expr_error_points failed
  obtain rfl := Option.some.inj hplace
  exact points

end ExprMachine
