/-
  ExprMachine.Proofs.Diagnostic.Colors

  Colour never changes the text. The rendering of a diagnostic in colour is the one without,
  with control sequences of the terminal between its characters.
-/
import ExprMachine.Diagnostic.Terminal
import ExprMachine.Proofs.Source.Lines

namespace ExprMachine.Diagnostic

-- ============================================================================
-- Control sequences
-- ============================================================================

/-- The character that a control sequence starts with. -/
def escape : Char := '\x1b'

/-- The parameters of a control sequence: numbers with semicolons between them. -/
def isParameter (c : Char) : Bool := c.isDigit || c == ';'

/-- What follows the control sequence for a colour at the front of a text, if there is one. -/
def afterSequence? : List Char → Option (List Char)
  | first :: second :: more =>
    if first = escape ∧ second = '[' then
      match more.dropWhile isParameter with
      | last :: after => if last = 'm' then some after else none
      | [] => none
    else none
  | _ => none

theorem length_afterSequence? {text after : List Char} (h : afterSequence? text = some after) :
    after.length < text.length := by
  unfold afterSequence? at h
  split at h
  · rename_i first second more
    split at h
    · split at h
      · rename_i last found hfound
        have shorter := (List.dropWhile_suffix isParameter (l := more)).length_le
        rw [hfound, List.length_cons] at shorter
        split at h
        · obtain rfl := Option.some.inj h
          simp only [List.length_cons]
          omega
        · cases h
      · cases h
    · cases h
  · cases h

/-- A text without the control sequences for colours. -/
def withoutColors (text : List Char) : List Char :=
  match text with
  | [] => []
  | c :: rest =>
    match h : afterSequence? (c :: rest) with
    | some after =>
      have := length_afterSequence? h
      withoutColors after
    | none => c :: withoutColors rest
termination_by text.length
decreasing_by
  · exact this
  · exact Nat.lt_succ_self rest.length

@[simp] theorem withoutColors_nil : withoutColors [] = [] := by
  rw [withoutColors]

theorem withoutColors_cons {c : Char} (h : c ≠ escape) (rest : List Char) :
    withoutColors (c :: rest) = c :: withoutColors rest := by
  have none : afterSequence? (c :: rest) = none := by
    unfold afterSequence?
    split
    · rename_i hcons
      obtain ⟨rfl, rfl⟩ := List.cons.inj hcons
      exact if_neg fun starts => h starts.1
    · rfl
  rw [withoutColors]
  split
  · rename_i some
    rw [none] at some
    cases some
  · rfl

theorem withoutColors_sequence {parameters : List Char}
    (h : ∀ c ∈ parameters, isParameter c = true) (rest : List Char) :
    withoutColors (escape :: '[' :: (parameters ++ 'm' :: rest)) = withoutColors rest := by
  have found : afterSequence? (escape :: '[' :: (parameters ++ 'm' :: rest)) = some rest := by
    have dropped : (parameters ++ 'm' :: rest).dropWhile isParameter = 'm' :: rest := by
      rw [List.dropWhile_append_of_pos h, List.dropWhile_cons_of_neg (by decide)]
    unfold afterSequence?
    simp only [dropped, and_self, if_pos]
  rw [withoutColors]
  split
  · rename_i same
    rw [found] at same
    exact congrArg withoutColors (Option.some.inj same).symm
  · rename_i none
    rw [found] at none
    cases none

-- ============================================================================
-- Coloured texts
-- ============================================================================

/-- Whether a text has no character that starts a control sequence. -/
def IsPlain (text : String) : Prop := escape ∉ text.toList

instance (text : String) : Decidable (IsPlain text) :=
  inferInstanceAs (Decidable (¬ escape ∈ text.toList))

/-- `Colors colored text`: the first text is the second with control sequences between its
    characters, whatever follows it. -/
def Colors (colored text : String) : Prop :=
  ∀ rest, withoutColors (colored.toList ++ rest) = text.toList ++ withoutColors rest

namespace Colors

theorem plain {text : String} (h : IsPlain text) : Colors text text := by
  unfold IsPlain at h
  intro rest
  revert h
  induction text.toList with
  | nil => exact fun _ => rfl
  | cons c chars ih =>
    intro h
    obtain ⟨first, others⟩ := not_or.1 (List.mem_cons.not.1 h)
    rw [List.cons_append, withoutColors_cons (Ne.symm first), ih others, List.cons_append]

theorem append {front back colored text : String} (hfront : Colors front colored)
    (hback : Colors back text) : Colors (front ++ back) (colored ++ text) := by
  intro rest
  rw [String.toList_append, String.toList_append, List.append_assoc, hfront, hback,
    List.append_assoc]

theorem followed {front colored text : String} (hfront : Colors front colored)
    (h : IsPlain text) : Colors (front ++ text) (colored ++ text) :=
  append hfront (plain h)

theorem join {α : Type} {items : List α} {painted shown : α → String}
    (h : ∀ item ∈ items, Colors (painted item) (shown item)) :
    Colors (String.join (items.map painted)) (String.join (items.map shown)) := by
  induction items with
  | nil => exact fun rest => rfl
  | cons item items ih =>
    rw [List.forall_mem_cons] at h
    rw [List.map_cons, List.map_cons, String.join_cons, String.join_cons]
    exact append h.1 (ih h.2)

/-- A style is one control sequence before the text and one after it. -/
theorem paint {style text : String} (parameters : ∀ c ∈ style.toList, isParameter c = true)
    (h : IsPlain text) : Colors (paint true style text) (paint false style text) := by
  intro rest
  have opening : "\x1b[".toList = [escape, '['] := by decide
  have letter : "m".toList = ['m'] := by decide
  have reset : "\x1b[0m".toList = escape :: '[' :: (['0'] ++ ['m']) := by decide
  have zero : ∀ c ∈ ['0'], isParameter c = true := List.all_eq_true.1 (by decide)
  show withoutColors (("\x1b[" ++ style ++ "m" ++ text ++ "\x1b[0m").toList ++ rest) =
    text.toList ++ withoutColors rest
  simp only [String.toList_append, opening, letter, reset, List.append_assoc, List.cons_append,
    List.nil_append]
  rw [withoutColors_sequence parameters, plain h]
  exact congrArg (text.toList ++ ·) (withoutColors_sequence zero rest)

theorem bold {text : String} (h : IsPlain text) :
    Colors (bold true text) (Diagnostic.bold false text) :=
  paint (List.all_eq_true.1 (by decide)) h

theorem boldRed {text : String} (h : IsPlain text) :
    Colors (boldRed true text) (Diagnostic.boldRed false text) :=
  paint (List.all_eq_true.1 (by decide)) h

theorem cyan {text : String} (h : IsPlain text) :
    Colors (cyan true text) (Diagnostic.cyan false text) :=
  paint (List.all_eq_true.1 (by decide)) h

theorem dim {text : String} (h : IsPlain text) :
    Colors (dim true text) (Diagnostic.dim false text) :=
  paint (List.all_eq_true.1 (by decide)) h

end Colors

-- ============================================================================
-- Plain texts
-- ============================================================================

theorem IsPlain.append {front back : String} (hfront : IsPlain front) (hback : IsPlain back) :
    IsPlain (front ++ back) := by
  rw [IsPlain, String.toList_append, List.mem_append, not_or]
  exact ⟨hfront, hback⟩

theorem isPlain_copies (count : Nat) {c : Char} (h : c ≠ escape) : IsPlain (copies count c) := by
  rw [IsPlain, copies, String.toList_ofList]
  exact fun hmem => h (List.eq_of_mem_replicate hmem).symm

theorem isPlain_toString (number : Nat) : IsPlain (toString number) := by
  intro hmem
  rw [Nat.toString_eq_repr, Nat.toList_repr] at hmem
  have digit : escape.isDigit = true := Nat.isDigit_of_mem_toDigits (by decide) (by decide) hmem
  exact absurd digit (by decide)

theorem isPlain_lineText {source : String} (h : IsPlain source) (number : Nat) :
    IsPlain (Source.lineText source number) := by
  unfold Source.lineText
  split
  · decide
  · rename_i index
    rw [IsPlain, String.toList_ofList]
    intro hmem
    have shown := (List.rdropWhile_prefix _ _).subset hmem
    cases hline : (Source.lines source)[index]? with
    | none =>
      rw [hline] at shown
      exact List.not_mem_nil shown
    | some line =>
      rw [hline] at shown
      exact h (Source.mem_of_mem_splitOn (List.mem_of_getElem? hline) shown)

-- ============================================================================
-- Renderings
-- ============================================================================

/-- Whether no text of a diagnostic has a character that starts a control sequence. -/
structure TextsPlain (diagnostic : Diagnostic) : Prop where
  message : IsPlain diagnostic.message
  code : ∀ code ∈ diagnostic.code, IsPlain code
  labels : ∀ label ∈ diagnostic.labels, IsPlain label.message
  notes : ∀ note ∈ diagnostic.notes, IsPlain note
  suggestion : ∀ suggestion ∈ diagnostic.suggestion, IsPlain suggestion
  source : ∀ source ∈ diagnostic.source, IsPlain source

theorem colors_headLine {diagnostic : Diagnostic} (h : TextsPlain diagnostic) :
    Colors (headLine true diagnostic) (headLine false diagnostic) := by
  have line {head : String} (hhead : IsPlain head) :
      Colors (boldRed true head ++ ": " ++ bold true diagnostic.message ++ "\n")
        (boldRed false head ++ ": " ++ bold false diagnostic.message ++ "\n") :=
    (((Colors.boldRed hhead).followed (by decide)).append (.bold h.message)).followed (by decide)
  unfold headLine
  cases hcode : diagnostic.code with
  | none => exact line (show IsPlain severity by decide)
  | some code =>
    have opening : IsPlain (severity ++ "[") := by decide
    exact line ((opening.append (h.code code hcode)).append (by decide))

theorem colors_snippet {source : String} {label : Label} (hsource : IsPlain source)
    (hlabel : IsPlain label.message) :
    Colors (snippet true source label) (snippet false source label) := by
  have space : IsPlain " " := by decide
  have newline : IsPlain "\n" := by decide
  have spaces (count : Nat) : IsPlain (copies count ' ') := isPlain_copies count (by decide)
  have number := isPlain_toString label.position.line
  have bar : IsPlain "|" := by decide
  have margin := (Colors.plain ((spaces (toString label.position.line).length).append space)).append
    (.cyan bar)
  have marks := Colors.boldRed (isPlain_copies (max label.length 1) (show '^' ≠ escape by decide))
  have said : Colors
      (if label.message.isEmpty then "" else " " ++ boldRed true label.message)
      (if label.message.isEmpty then "" else " " ++ boldRed false label.message) := by
    split
    · exact .plain (by decide)
    · exact .append (.plain space) (.boldRed hlabel)
  -- The rows one after the other, in the order of the snippet.
  have indent : IsPlain "  " := by decide
  have colon : IsPlain ":" := by decide
  have arrow : IsPlain "-->" := by decide
  have place := ((((((Colors.plain indent).append (.cyan arrow)).followed space).followed
    number).followed colon).followed
      (isPlain_toString (label.position.offset + 1))).followed newline
  have above := (place.append margin).followed newline
  have line := (((((above.append (.cyan number)).followed space).append (.cyan bar)).followed
    space).followed (isPlain_lineText hsource label.position.line)).followed newline
  have marked := (((((line.append margin).followed space).followed
    (spaces label.position.offset)).append marks).append said).followed newline
  exact (marked.append margin).followed newline

theorem colors_remark {name text : String} (hname : IsPlain name) (htext : IsPlain text) :
    Colors (remark true name text) (remark false name text) := by
  have indent : IsPlain "  " := by decide
  have sign : IsPlain "=" := by decide
  have opening := ((Colors.plain indent).append (.dim sign)).followed (show IsPlain " " by decide)
  exact (((opening.followed hname).followed (by decide)).followed htext).followed (by decide)

theorem colors_render {diagnostic : Diagnostic} (h : TextsPlain diagnostic) :
    Colors (render true diagnostic) (render false diagnostic) := by
  have notes := @Colors.join _ diagnostic.notes (remark true "note") (remark false "note")
    fun note hmem => colors_remark (by decide) (h.notes note hmem)
  have suggestions := @Colors.join _ diagnostic.suggestion.toList (remark true "suggestion")
    (remark false "suggestion")
    fun suggestion hmem => colors_remark (by decide) (h.suggestion suggestion (by simpa using hmem))
  have whole {colored text : String} (shown : Colors colored text) :
      Colors
        (String.join (headLine true diagnostic :: colored ::
          (diagnostic.notes.map (remark true "note") ++
            diagnostic.suggestion.toList.map (remark true "suggestion"))))
        (String.join (headLine false diagnostic :: text ::
          (diagnostic.notes.map (remark false "note") ++
            diagnostic.suggestion.toList.map (remark false "suggestion")))) := by
    simp only [String.join_cons, String.join_append]
    exact (colors_headLine h).append (shown.append (notes.append suggestions))
  have nothing : IsPlain "" := by decide
  unfold render
  cases hlabel : diagnostic.labels.find? Label.isPrimary with
  | none => exact whole (.plain nothing)
  | some label =>
    cases hsource : diagnostic.source with
    | none => exact whole (.plain nothing)
    | some source =>
      have message := h.labels label (List.mem_of_find?_eq_some hlabel)
      exact whole (colors_snippet (h.source source hsource) message)

/-- Colour is all that is different in colour: without the control sequences, the rendering
    of a diagnostic whose texts have none is the one without colour. -/
theorem withoutColors_render {diagnostic : Diagnostic} (h : TextsPlain diagnostic) :
    withoutColors (render true diagnostic).toList = (render false diagnostic).toList := by
  have whole := colors_render h []
  rwa [List.append_nil, withoutColors_nil, List.append_nil] at whole

/-- A mark below the second line of a source, beside a secondary label without a message. -/
theorem withoutColors_render_marked :
    withoutColors (render true ⟨"unexpected token ')'", some "RB-P001",
      [⟨⟨1, 0⟩, 1, "", false⟩, ⟨⟨2, 4⟩, 0, "here", true⟩], ["some context"], some "remove it",
      some "(a +\r\n  b))"⟩).toList =
    (render false ⟨"unexpected token ')'", some "RB-P001",
      [⟨⟨1, 0⟩, 1, "", false⟩, ⟨⟨2, 4⟩, 0, "here", true⟩], ["some context"], some "remove it",
      some "(a +\r\n  b))"⟩).toList := by
  refine withoutColors_render ⟨?_, ?_, ?_, ?_, ?_, ?_⟩
  · decide
  · decide
  · decide
  · decide
  · decide
  · decide

end ExprMachine.Diagnostic
