/-
  ExprMachine.Executable.Arguments

  The parser of arguments that the executable is built with. Options have long names and
  some a short one; a value follows its option as the next argument or after an equals
  sign. Arguments are taken one after the other, so that the first fault or the first
  request for help decides.
-/
import ExprMachine.CommandLine.Options
import ExprMachine.Diagnostic.Explanation

namespace ExprMachine.Executable

open CommandLine

/-! ## Without a run -/

/-- The name and the version of the command. -/
def versionText : String := "rulebyte 0.3.0\n"

/-- How the command is used. -/
def helpText : String :=
  Explanation.paragraph
    ["Evaluate an expression against a JSON environment",
     "",
     "Usage: rulebyte [OPTIONS] [EXPRESSION]",
     "",
     "Arguments:",
     "  [EXPRESSION]  Expression to evaluate",
     "",
     "Options:",
     "  -e, --env <FILE>         JSON environment file",
     "      --env-json <JSON>    Inline JSON environment",
     "      --emit <TARGET>      Print an intermediate form instead of evaluating " ++
       "[possible values: tokens, ast, bytecode, fmt]",
     "      --json               Print the result as JSON",
     "      --bare               Do not install the standard operator set",
     "      --diagnostics <FMT>  Diagnostic output format [default: ansi] " ++
       "[possible values: ansi, json]",
     "      --no-color           Disable ANSI colours",
     "      --explain <CODE>     Print the long explanation of an error code",
     "  -h, --help               Print help",
     "  -V, --version            Print version"]

/-- What is printed when the arguments cannot be understood. -/
def usageText : String :=
  Explanation.paragraph
    ["error: the arguments cannot be understood",
     "",
     "Usage: rulebyte [OPTIONS] [EXPRESSION]",
     "",
     "For more information, try '--help'."]

/-- The outcome of a request for help. -/
def helpShown : Outcome := ⟨0, helpText, ""⟩

/-- The outcome of a request for the version. -/
def versionShown : Outcome := ⟨0, versionText, ""⟩

/-- The outcome of arguments that cannot be understood. -/
def misused : Outcome := ⟨2, "", usageText⟩

/-! ## Single options -/

/-- Turns on the flag of a name, unless it is on. -/
def setFlag? (options : Options) : String → Option Options
  | "json" => if options.json then none else some { options with json := true }
  | "bare" => if options.bare then none else some { options with bare := true }
  | "no-color" => if options.noColor then none else some { options with noColor := true }
  | _ => none

/-- Whether an option of this name has a value. -/
def takesValue (name : String) : Bool :=
  ["env", "env-json", "emit", "diagnostics", "explain"].contains name

/-- Gives the option of a name its value, unless it has one or the value is none that
    it can have. -/
def setValue? (options : Options) (name value : String) : Option Options :=
  match name with
  | "env" =>
    if options.environmentFile.isSome || value.isEmpty then none
    else some { options with environmentFile := some value }
  | "env-json" =>
    if options.environmentJson.isSome then none
    else some { options with environmentJson := some value }
  | "emit" =>
    if options.emit.isSome then none
    else (Target.ofName? value).map fun target => { options with emit := some target }
  | "diagnostics" =>
    if options.errorFormat.isSome then none
    else (ErrorFormat.ofName? value).map fun format => { options with errorFormat := some format }
  | "explain" =>
    if options.explain.isSome then none else some { options with explain := some value }
  | _ => none

/-- Takes the expression, unless there is one. -/
def setExpression? (options : Options) (text : String) : Option Options :=
  if options.expression.isSome then none else some { options with expression := some text }

/-- Whether an argument looks like an option, so that it cannot be a value. -/
def looksLikeOption (argument : String) : Bool :=
  match argument.toList with
  | '-' :: _ :: _ => true
  | _ => false

/-! ## All arguments -/

/-- Checks the options together: the environment is given once at most, and there is an
    expression or a code to explain. -/
def finish (options : Options) : Except Outcome Options :=
  if options.environmentFile.isSome && options.environmentJson.isSome then .error misused
  else if options.expression.isNone && options.explain.isNone then .error misused
  else .ok options

/-- How an argument is to be understood. -/
inductive Form where
  /-- All arguments after this one are expressions. -/
  | endOfOptions
  | version
  | help
  /-- An option that stands for itself. -/
  | flag (name : String)
  /-- An option whose value is the next argument. -/
  | option (name : String)
  /-- An option with its value. -/
  | optionWithValue (name value : String)
  | expression
  | unknown
deriving DecidableEq, Repr

/-- The form of a long option, from its characters after the two dashes. -/
def longForm (text : List Char) : Form :=
  let name := String.ofList (text.takeWhile (· ≠ '='))
  match text.dropWhile (· ≠ '=') with
  | [] =>
    if name = "version" then .version
    else if name = "help" then .help
    else if takesValue name then .option name
    else .flag name
  | _ :: value => if takesValue name then .optionWithValue name (String.ofList value) else .unknown

/-- The form of an argument. -/
def formOf (argument : String) : Form :=
  match argument.toList with
  | ['-', '-'] => .endOfOptions
  | '-' :: '-' :: text => longForm text
  | '-' :: 'V' :: _ => .version
  | '-' :: 'h' :: _ => .help
  | ['-', 'e'] => .option "env"
  | '-' :: 'e' :: '=' :: value => .optionWithValue "env" (String.ofList value)
  | '-' :: 'e' :: value => .optionWithValue "env" (String.ofList value)
  | '-' :: _ :: _ => .unknown
  | _ => .expression

/-- Takes the arguments after the end of the options. -/
def parseExpressions (options : Options) : List String → Except Outcome Options
  | [] => finish options
  | text :: rest =>
    match setExpression? options text with
    | some options => parseExpressions options rest
    | none => .error misused

/-- Takes the arguments one after the other. -/
def parseFrom (options : Options) : List String → Except Outcome Options
  | [] => finish options
  | argument :: rest =>
    match formOf argument with
    | .endOfOptions => parseExpressions options rest
    | .version => .error versionShown
    | .help => .error helpShown
    | .unknown => .error misused
    | .flag name =>
      match setFlag? options name with
      | some options => parseFrom options rest
      | none => .error misused
    | .optionWithValue name value =>
      match setValue? options name value with
      | some options => parseFrom options rest
      | none => .error misused
    | .option name =>
      match rest with
      | [] => .error misused
      | value :: rest =>
        if looksLikeOption value then .error misused
        else
          match setValue? options name value with
          | some options => parseFrom options rest
          | none => .error misused
    | .expression =>
      match setExpression? options argument with
      | some options => parseFrom options rest
      | none => .error misused

/-- What the arguments of the command mean. -/
def parse (arguments : List String) : Except Outcome Options :=
  parseFrom {} arguments

end ExprMachine.Executable
