/-
  ExprMachine.Proofs.CommandLine.Evaluation

  The command without a target evaluates its expression. It goes through the stages
  itself and gets the environment between compiling and running, but its outcome is that
  of evaluating the source at once: the value, or one diagnostic, which is of the first
  stage that fails when the environment is counted after the compiler.
-/
import ExprMachine.Evaluation
import ExprMachine.Proofs.CommandLine.Settings
import ExprMachine.Proofs.Executable.Packages

namespace ExprMachine.CommandLine

variable {json : Json.Codec} {reader : FileReader} {options : Options} {source text : String}

-- ============================================================================
-- The environment
-- ============================================================================

/-- Whether the options give this text for the environment. -/
inductive HasText (reader : FileReader) (options : Options) : String → Prop where
  | inline {text : String} (noFile : options.environmentFile = none)
      (inline : options.environmentJson = some text) : HasText reader options text
  | file {path text : String} {bytes : ByteArray} (file : options.environmentFile = some path)
      (read : reader path = .ok bytes) (decoded : String.fromUTF8? bytes = some text) :
      HasText reader options text

/-- Whether the options give this environment. Without a text for it, it is an empty map. -/
inductive HasEnvironment (json : Json.Codec) (reader : FileReader) (options : Options) :
    Value → Prop where
  | nothing (noFile : options.environmentFile = none) (noText : options.environmentJson = none) :
      HasEnvironment json reader options (.map [])
  | document {text : String} {document : Json} (given : HasText reader options text)
      (parsed : json.read text = .ok document) :
      HasEnvironment json reader options (.ofJson document)

/-- The error of an environment that cannot be got. -/
inductive EnvironmentError (json : Json.Codec) (reader : FileReader) (options : Options) :
    Diagnostic → Prop where
  | unreadable {path : String} {error : FileError} (file : options.environmentFile = some path)
      (failed : reader path = .error error) :
      EnvironmentError json reader options
        { message := "cannot read environment file " ++ path ++ ": " ++ error.message }
  | notText {path : String} {bytes : ByteArray} (file : options.environmentFile = some path)
      (read : reader path = .ok bytes) (notText : String.fromUTF8? bytes = none) :
      EnvironmentError json reader options
        { message := "cannot read environment file " ++ path ++ ": " ++
            FileError.notText.message }
  | notJson {text message : String} (given : HasText reader options text)
      (notJson : json.read text = .error message) :
      EnvironmentError json reader options
        { message := "invalid environment JSON: " ++ message
          notes := ["the environment must be a JSON document, usually an object"] }

theorem environment_of_text (given : environmentText reader options = .ok (some text)) :
    (∀ document, json.read text = .ok document →
      environment json reader options = .ok (.ofJson document)) ∧
    (∀ message, json.read text = .error message → environment json reader options = .error
      { message := "invalid environment JSON: " ++ message
        notes := ["the environment must be a JSON document, usually an object"] }) := by
  constructor
  · intro document parsed
    simp only [environment, given, parsed]
  · intro message notJson
    simp only [environment, given, notJson]

theorem environmentText_of_hasText (given : HasText reader options text) :
    environmentText reader options = .ok (some text) := by
  cases given with
  | inline noFile inline => simp only [environmentText, noFile, inline]
  | file file read decoded => simp only [environmentText, file, readText, read, decoded]

theorem environment_of_hasEnvironment {value : Value}
    (given : HasEnvironment json reader options value) :
    environment json reader options = .ok value := by
  cases given with
  | nothing noFile noText => simp only [environment, environmentText, noFile, noText]
  | document given parsed =>
    exact (environment_of_text (environmentText_of_hasText given)).1 _ parsed

theorem environment_of_environmentError {diagnostic : Diagnostic}
    (failed : EnvironmentError json reader options diagnostic) :
    environment json reader options = .error diagnostic := by
  cases failed with
  | unreadable file failed =>
    simp only [environment, environmentText, file, readText, failed]
  | notText file read notText =>
    simp only [environment, environmentText, file, readText, read, notText]
  | notJson given notJson =>
    exact (environment_of_text (environmentText_of_hasText given)).2 _ notJson

/-- There is an environment, or an error in its place. -/
theorem hasEnvironment_or_environmentError (json : Json.Codec) (reader : FileReader)
    (options : Options) :
    (∃ value, HasEnvironment json reader options value) ∨
      ∃ diagnostic, EnvironmentError json reader options diagnostic := by
  have of_text : ∀ {text}, HasText reader options text →
      (∃ value, HasEnvironment json reader options value) ∨
        ∃ diagnostic, EnvironmentError json reader options diagnostic := by
    intro text given
    cases parsed : json.read text with
    | error message => exact .inr ⟨_, .notJson given parsed⟩
    | ok document => exact .inl ⟨_, .document given parsed⟩
  cases hfile : options.environmentFile with
  | none =>
    cases hjson : options.environmentJson with
    | none => exact .inl ⟨_, .nothing hfile hjson⟩
    | some text => exact of_text (.inline hfile hjson)
  | some path =>
    cases hread : reader path with
    | error error => exact .inr ⟨_, .unreadable hfile hread⟩
    | ok bytes =>
      cases hdecoded : String.fromUTF8? bytes with
      | none => exact .inr ⟨_, .notText hfile hread hdecoded⟩
      | some text => exact of_text (.file hfile hread hdecoded)

-- ============================================================================
-- Stages
-- ============================================================================

/-- An error of a stage as the command reports it. The source is shown with errors that
    have a place in it. -/
def diagnose (source : String) : Failure → Diagnostic
  | .lex error => (Diagnostic.ofLexError error).withSource source
  | .parse error => (Diagnostic.ofParseError error).withSource source
  | .compile error => .ofCompileError error
  | .run error => .ofRunError error

/-- Without a target the command compiles the source, and goes on with the chunk. -/
theorem fromSource_value (noTarget : options.emit = none) (source : String) :
    fromSource json reader options source =
      ((Source.chunk source).mapError (diagnose source)).bind (evaluate json reader options) := by
  simp only [fromSource, Source.chunk, Source.expr, Source.tokens]
  cases Token.scan Token.standardKeywords source with
  | error error => rfl
  | ok tokens =>
    simp only [noTarget, reduceCtorEq, if_false]
    unfold Except.mapError
    dsimp only
    cases Expr.parse .standard tokens with
    | error error => rfl
    | ok expr =>
      simp only [fromExpr, noTarget, reduceCtorEq, if_false]
      cases expr.compile with
      | error error => rfl
      | ok chunk => rfl

/-- What the command evaluates in. -/
def contextOf (options : Options) (environment : Value) : Context :=
  ⟨.empty, if options.bare then .empty else .standard, environment⟩

/-- A value as the command prints it. -/
def shown (json : Json.Codec) (options : Options) (value : Value) : String :=
  if options.json then json.display value.toJson else value.display

/-- With an environment the command does what the library does. -/
theorem fromSource_of_hasEnvironment (noTarget : options.emit = none) {environment : Value}
    (given : HasEnvironment json reader options environment) (source : String) :
    fromSource json reader options source =
      ((Source.evaluate (contextOf options environment) source).mapError (diagnose source)).map
        (shown json options) := by
  rw [fromSource_value noTarget, Source.evaluate]
  cases Source.chunk source with
  | error failure => rfl
  | ok chunk =>
    change evaluate json reader options chunk = _
    simp only [evaluate, environment_of_hasEnvironment given]
    cases hrun : Machine.run (contextOf options environment) chunk with
    | error error =>
      rw [contextOf] at hrun
      simp only [hrun]
      rfl
    | ok value =>
      rw [contextOf] at hrun
      simp only [hrun]
      rfl

-- ============================================================================
-- Values and errors
-- ============================================================================

/-- Whether the source has this value in the environment that the options give. -/
def HasValue (json : Json.Codec) (reader : FileReader) (options : Options) (source : String)
    (value : Value) : Prop :=
  ∃ environment, HasEnvironment json reader options environment ∧
    Source.evaluate (contextOf options environment) source = .ok value

/-- The one error that is reported for a source without a value: that of a stage up to
    compiling if there is one, else that of the environment, else that of the run. -/
inductive Blamed (json : Json.Codec) (reader : FileReader) (options : Options) (source : String) :
    Diagnostic → Prop where
  | stage {failure : Failure} (failed : Source.chunk source = .error failure) :
      Blamed json reader options source (diagnose source failure)
  | environment {chunk : Chunk} {diagnostic : Diagnostic}
      (compiled : Source.chunk source = .ok chunk)
      (failed : EnvironmentError json reader options diagnostic) :
      Blamed json reader options source diagnostic
  | run {environment : Value} {error : RunError}
      (given : HasEnvironment json reader options environment)
      (failed : Source.evaluate (contextOf options environment) source = .error (.run error)) :
      Blamed json reader options source (.ofRunError error)

theorem fromSource_of_hasValue (noTarget : options.emit = none) {value : Value}
    (h : HasValue json reader options source value) :
    fromSource json reader options source = .ok (shown json options value) := by
  obtain ⟨environment, given, evaluated⟩ := h
  rw [fromSource_of_hasEnvironment noTarget given, evaluated]
  rfl

theorem fromSource_of_blamed (noTarget : options.emit = none) {diagnostic : Diagnostic}
    (h : Blamed json reader options source diagnostic) :
    fromSource json reader options source = .error diagnostic := by
  cases h with
  | stage failed =>
    rw [fromSource_value noTarget, failed]
    rfl
  | environment compiled failed =>
    rw [fromSource_value noTarget, compiled]
    change evaluate json reader options _ = _
    simp only [evaluate, environment_of_environmentError failed]
  | run given failed =>
    rw [fromSource_of_hasEnvironment noTarget given, failed]
    rfl

/-- There is a value, or an error to report. -/
theorem hasValue_or_blamed (json : Json.Codec) (reader : FileReader) (options : Options)
    (source : String) :
    (∃ value, HasValue json reader options source value) ∨
      ∃ diagnostic, Blamed json reader options source diagnostic := by
  cases compiled : Source.chunk source with
  | error failure => exact .inr ⟨_, .stage compiled⟩
  | ok chunk =>
    rcases hasEnvironment_or_environmentError json reader options with
      ⟨environment, given⟩ | ⟨diagnostic, failed⟩
    · have evaluated : Source.evaluate (contextOf options environment) source =
          (Machine.run (contextOf options environment) chunk).mapError .run := by
        rw [Source.evaluate, compiled]
      cases hrun : Machine.run (contextOf options environment) chunk with
      | error error =>
        rw [hrun] at evaluated
        exact .inr ⟨_, .run given evaluated⟩
      | ok value =>
        rw [hrun] at evaluated
        exact .inl ⟨value, environment, given, evaluated⟩
    · exact .inr ⟨diagnostic, .environment compiled failed⟩

-- ============================================================================
-- The command
-- ============================================================================

theorem result_of_expression (json : Json.Codec) (reader : FileReader)
    (expression : options.expression = some source) (noCode : options.explain = none) :
    result json reader options = fromSource json reader options source := by
  simp only [result, noCode, expression]

section Command

variable {packages : Packages} {arguments : List String}

theorem run_of_result {text : String} (accepted : packages.arguments arguments = .ok options)
    (h : result packages.json reader options = .ok text) (color : Bool) :
    run packages reader color arguments = ⟨0, text ++ "\n", ""⟩ := by
  simp only [run, accepted, h]

theorem run_of_no_result {diagnostic : Diagnostic}
    (accepted : packages.arguments arguments = .ok options)
    (h : result packages.json reader options = .error diagnostic) (color : Bool) :
    run packages reader color arguments =
      ⟨1, "", report packages.json color options diagnostic⟩ := by
  simp only [run, accepted, h]

end Command

/-- The command evaluates its expression as the library does: it has status 0 just when the
    source has a value in the environment that the options give, and prints the value; with
    status 1 it reports the one error that stands in its way. -/
theorem run_evaluates (packages : Packages) (reads : packages.ReadsSettings)
    (reader : FileReader) (color : Bool) {options : Options} {arguments : List String}
    {source : String} (written : Written options arguments)
    (expression : options.expression = some source) (noTarget : options.emit = none)
    (noCode : options.explain = none)
    (once : options.environmentFile = none ∨ options.environmentJson = none) :
    ((run packages reader color arguments).status = 0 ↔
      ∃ value, HasValue packages.json reader options source value) ∧
    (∀ value, HasValue packages.json reader options source value →
      run packages reader color arguments =
        ⟨0, shown packages.json options value ++ "\n", ""⟩) ∧
    (∀ diagnostic, Blamed packages.json reader options source diagnostic →
      run packages reader color arguments =
        ⟨1, "", report packages.json color options diagnostic⟩) ∧
    ((∃ value, HasValue packages.json reader options source value) ∨
      ∃ diagnostic, Blamed packages.json reader options source diagnostic) := by
  have accepted : packages.arguments arguments = .ok options :=
    reads _ _ written ⟨once, .inl (by rw [expression]; rfl)⟩
  have result_eq := result_of_expression packages.json reader expression noCode
  have of_value : ∀ value, HasValue packages.json reader options source value →
      run packages reader color arguments =
        ⟨0, shown packages.json options value ++ "\n", ""⟩ := by
    intro value h
    exact run_of_result accepted (result_eq.trans (fromSource_of_hasValue noTarget h)) color
  have of_error : ∀ diagnostic, Blamed packages.json reader options source diagnostic →
      run packages reader color arguments =
        ⟨1, "", report packages.json color options diagnostic⟩ := by
    intro diagnostic h
    exact run_of_no_result accepted (result_eq.trans (fromSource_of_blamed noTarget h)) color
  have total := hasValue_or_blamed packages.json reader options source
  refine ⟨⟨fun success => ?_, fun ⟨value, h⟩ => ?_⟩, of_value, of_error, total⟩
  · rcases total with found | ⟨diagnostic, h⟩
    · exact found
    · rw [of_error diagnostic h] at success
      cases success
  · rw [of_value value h]

/-- Of a source that is no expression and a missing file, the source is reported. Without
    either fault the value is printed. -/
theorem run_evaluates_missing_file :
    let reader : FileReader := fun _ => .error .notFound
    run Executable.packages reader false ["missing(", "--env", "absent.json"] =
        ⟨1, "", report Executable.codec false {} ((Diagnostic.ofParseError
          ⟨⟨1, 8⟩, .unexpectedEnd⟩).withSource "missing(")⟩ ∧
      run Executable.packages reader false ["--json", "true"] = ⟨0, "true\n", ""⟩ := by
  intro reader
  have file : WritesFile "absent.json" ["--env", "absent.json"] := .long (.apart (by decide))
  have faulty : Written { expression := some "missing(", environmentFile := some "absent.json" }
      ([] ++ ["missing("] ++ ["--env", "absent.json"]) :=
    (Written.nothing.setting (.expression rfl (by decide))).setting
      (.environmentFile rfl (by decide) file)
  have sound : Written { expression := some "true", json := true } ([] ++ ["--json"] ++ ["true"]) :=
    (Written.nothing.setting (.json rfl)).setting (.expression rfl (by decide))
  have failed : Source.chunk "missing(" = .error
      (.parse ⟨⟨1, 8⟩, .unexpectedEnd⟩) := by
    with_unfolding_all rfl
  have evaluated : Source.evaluate (contextOf {} (.map [])) "true" = .ok (.bool true) := by
    with_unfolding_all rfl
  have reads := Executable.packages_readsSettings
  refine ⟨?_, ?_⟩
  · exact (run_evaluates _ reads reader false faulty rfl rfl rfl (.inr rfl)).2.2.1 _ (.stage failed)
  · exact (run_evaluates _ reads reader false sound rfl rfl rfl (.inl rfl)).2.1 (.bool true)
      ⟨_, .nothing rfl rfl, evaluated⟩

/-- A file without a name is refused like an option without a value. -/
theorem run_empty_path : ¬ ∀ path : String, Plain path →
    let outcome := run Executable.packages (fun _ => .error .notFound) false ["1", "--env", path]
    outcome.status = 0 ∨ outcome.status = 1 := by
  intro h
  rcases h "" (by decide) with success | failure
  · cases success
  · cases failure

end ExprMachine.CommandLine
