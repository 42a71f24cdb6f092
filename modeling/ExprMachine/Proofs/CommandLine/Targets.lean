/-
  ExprMachine.Proofs.CommandLine.Targets

  The command with a target shows a stage of its source. The stages up to the target are
  all that it goes through: it reads no environment and runs nothing, whatever the other
  options are.
-/
import ExprMachine.Proofs.Bytecode.Constants
import ExprMachine.Proofs.CommandLine.Evaluation

namespace ExprMachine.CommandLine

/-- What a target shows of a source. -/
def Target.text (json : Json.Codec) (target : Target) (source : String) :
    Except Diagnostic String :=
  match target with
  | .tokens =>
    ((Source.tokens source).mapError (diagnose source)).bind fun tokens =>
      written json (.array (tokens.map Token.toJson))
  | .ast =>
    ((Source.expr source).mapError (diagnose source)).bind fun expr => written json expr.toJson
  | .fmt =>
    ((Source.expr source).mapError (diagnose source)).bind fun expr =>
      .ok (expr.render .standard .expanded)
  | .bytecode =>
    ((Source.chunk source).mapError (diagnose source)).bind fun chunk =>
      .ok (trimEnd chunk.listing)

/-- Whether the stages that a target needs succeed. -/
def Target.Succeeds (target : Target) (source : String) : Prop :=
  match target with
  | .tokens => ∃ tokens, Source.tokens source = .ok tokens
  | .ast | .fmt => ∃ expr, Source.expr source = .ok expr
  | .bytecode => ∃ chunk, Source.chunk source = .ok chunk

/-- Whether options are the same but for those that only an evaluation needs: the
    environment, the operators and the form of the value. -/
structure Options.Alike (first second : Options) : Prop where
  expression_eq : first.expression = second.expression
  emit_eq : first.emit = second.emit
  errorFormat_eq : first.errorFormat = second.errorFormat
  noColor_eq : first.noColor = second.noColor
  explain_eq : first.explain = second.explain

variable {json : Json.Codec} {reader : FileReader} {options : Options} {target : Target}
  {source : String}

theorem exists_written (writes : json.WritesDocuments) (document : Json) :
    ∃ text, written json document = .ok text := by
  obtain ⟨text, h⟩ := writes document
  exact ⟨text, by simp only [written, h]⟩

theorem exists_bind_iff {α : Type} {outcome : Except Failure α} {diagnose : Failure → Diagnostic}
    {next : α → Except Diagnostic String} (goes : ∀ value, ∃ text, next value = .ok text) :
    (∃ text, (outcome.mapError diagnose).bind next = .ok text) ↔ ∃ value, outcome = .ok value := by
  cases outcome with
  | error failure => simp [Except.mapError, Except.bind]
  | ok value => simpa [Except.mapError, Except.bind] using goes value

theorem Target.succeeds_iff (writes : json.WritesDocuments) :
    target.Succeeds source ↔ ∃ text, target.text json source = .ok text := by
  cases target with
  | tokens => exact (exists_bind_iff fun tokens => exists_written writes _).symm
  | ast => exact (exists_bind_iff fun expr => exists_written writes _).symm
  | fmt => exact (exists_bind_iff fun expr => ⟨_, rfl⟩).symm
  | bytecode => exact (exists_bind_iff fun chunk => ⟨_, rfl⟩).symm

/-- With a target only its stages are gone through. -/
theorem fromSource_target (asked : options.emit = some target) (source : String) :
    fromSource json reader options source = target.text json source := by
  cases target with
  | tokens =>
    simp only [fromSource, Target.text, Source.tokens, asked, if_true]
    cases Token.scan Token.standardKeywords source with
    | error error => rfl
    | ok tokens => rfl
  | ast | fmt =>
    simp only [fromSource, fromExpr, Target.text, Source.expr, Source.tokens, asked, if_true,
      Option.some.injEq, reduceCtorEq, if_false]
    cases Token.scan Token.standardKeywords source with
    | error error => rfl
    | ok tokens =>
      simp only [Except.mapError]
      cases Expr.parse .standard tokens with
      | error error => rfl
      | ok expr => rfl
  | bytecode =>
    simp only [fromSource, fromExpr, Target.text, Source.chunk, Source.expr, Source.tokens, asked,
      if_true, Option.some.injEq, reduceCtorEq, if_false]
    cases Token.scan Token.standardKeywords source with
    | error error => rfl
    | ok tokens =>
      simp only [Except.mapError]
      cases Expr.parse .standard tokens with
      | error error => rfl
      | ok expr =>
        simp only
        cases expr.compile with
        | error error => rfl
        | ok chunk => rfl

/-- Options that are alike have the same result, which no file is read for. -/
theorem result_of_alike {first second : Options} (asked : first.emit = some target)
    (alike : first.Alike second) (json : Json.Codec) (reader other : FileReader) :
    result json reader first = result json other second := by
  have asked' : second.emit = some target := alike.emit_eq ▸ asked
  rw [result, result, alike.explain_eq, alike.expression_eq]
  cases second.explain with
  | some code => rfl
  | none =>
    cases second.expression with
    | none => rfl
    | some source =>
      exact (fromSource_target asked source).trans
        (fromSource_target asked' source).symm

theorem report_of_alike {first second : Options} (alike : first.Alike second) (json : Json.Codec)
    (color : Bool) (diagnostic : Diagnostic) :
    report json color first diagnostic = report json color second diagnostic := by
  rw [report, report, alike.errorFormat_eq, alike.noColor_eq]

/-- With a target the environment is never looked at and nothing is run. Two commands that
    ask for the target of the same source do the same, whatever they say about the
    environment, the operators and the form of the value, and whatever files there are. As
    documents are written, the status is 0 just when the stages that the target needs
    succeed. -/
theorem run_target (packages : Packages) (reader other : FileReader) (color : Bool)
    {arguments more : List String} {first second : Options} {target : Target}
    (accepted : packages.arguments arguments = .ok first)
    (accepted' : packages.arguments more = .ok second) (asked : first.emit = some target)
    (alike : first.Alike second) :
    run packages reader color arguments = run packages other color more ∧
    (packages.json.WritesDocuments →
      ∀ source, first.expression = some source → first.explain = none →
        ((run packages reader color arguments).status = 0 ↔ target.Succeeds source)) := by
  constructor
  · simp only [run, accepted, accepted', result_of_alike asked alike packages.json reader other,
      report_of_alike alike]
  · intro writes source expression noCode
    rw [Target.succeeds_iff writes]
    simp only [run, accepted, result, expression, noCode, fromSource_target asked]
    cases target.text packages.json source with
    | error diagnostic => simp
    | ok text => simp

/-- A call that no environment could resolve is compiled, beside a missing file as beside a
    text that is no JSON. -/
theorem run_target_call :
    let arguments := ["--emit", "bytecode", "missing(1)", "--env", "absent.json"]
    let more := ["missing(1)", "--bare", "--env-json=[", "--json", "--emit=bytecode"]
    let reader : FileReader := fun _ => .error .notFound
    let other : FileReader := fun _ => .ok .empty
    run Executable.packages reader true arguments = run Executable.packages other true more ∧
      (run Executable.packages reader true arguments).status = 0 := by
  intro arguments more reader other
  have parsed : Source.expr "missing(1)" = .ok (.call "missing" [.int 1]) := by
    with_unfolding_all rfl
  have compiled : Target.bytecode.Succeeds "missing(1)" := by
    have compiles : ∃ chunk, (Expr.call "missing" [.int 1]).compile = .ok chunk :=
      Expr.exists_compile_iff.2 ⟨rfl, by decide⟩
    obtain ⟨chunk, hchunk⟩ := compiles
    refine ⟨chunk, ?_⟩
    simp only [Source.chunk, parsed, hchunk, Except.mapError]
  have accepted : Executable.packages.arguments arguments = .ok
      { expression := some "missing(1)", emit := some .bytecode,
        environmentFile := some "absent.json" } := rfl
  have accepted' : Executable.packages.arguments more = .ok
      { expression := some "missing(1)", emit := some .bytecode, environmentJson := some "[",
        bare := true, json := true } := rfl
  obtain ⟨same, status⟩ := run_target Executable.packages reader other true accepted accepted' rfl
    ⟨rfl, rfl, rfl, rfl, rfl⟩
  exact ⟨same, (status Executable.codec_writesDocuments _ rfl rfl).2 compiled⟩

end ExprMachine.CommandLine
