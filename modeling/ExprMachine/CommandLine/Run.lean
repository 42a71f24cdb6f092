/-
  ExprMachine.CommandLine.Run

  What the command prints, given the packages it is built with, a way to read files and
  its arguments.
-/
import ExprMachine.CommandLine.Options
import ExprMachine.Diagnostic.Explanation
import ExprMachine.Diagnostic.Json
import ExprMachine.Diagnostic.Terminal
import ExprMachine.Expr.Json
import ExprMachine.Expr.Printer
import ExprMachine.Bytecode.Listing
import ExprMachine.Token.Json
import ExprMachine.Value.Json
import ExprMachine.Value.Text

namespace ExprMachine.CommandLine

/-! ## Packages -/

/-- What the command takes from packages: a parser of arguments and a library for JSON. -/
structure Packages where
  /-- The options that the arguments give, or the outcome in place of a run: help, the
      version, or what is wrong with the arguments. -/
  arguments : List String → Except Outcome Options
  json : Json.Codec

/-! ## Files -/

/-- Why a file cannot be read. -/
inductive FileError where
  | notFound
  | permissionDenied
  | notADirectory
  | isADirectory
  | nameTooLong
  /-- The file is not UTF-8. -/
  | notText
  /-- Another failure, in the words of the system. -/
  | other (message : String)
deriving DecidableEq, Repr

/-- What is wrong with a file. -/
def FileError.message : FileError → String
  | .notFound => "No such file or directory (os error 2)"
  | .permissionDenied => "Permission denied (os error 13)"
  | .notADirectory => "Not a directory (os error 20)"
  | .isADirectory => "Is a directory (os error 21)"
  | .nameTooLong => "File name too long (os error 36)"
  | .notText => "stream did not contain valid UTF-8"
  | .other message => message

/-- Reads the bytes of the file at a path. -/
abbrev FileReader := (path : String) → Except FileError ByteArray

/-- Reads a file as text. -/
def readText (reader : FileReader) (path : String) : Except FileError String :=
  match reader path with
  | .error error => .error error
  | .ok bytes =>
    match String.fromUTF8? bytes with
    | some text => .ok text
    | none => .error .notText

/-! ## The environment -/

/-- The text of the environment, if the options give one. -/
def environmentText (reader : FileReader) (options : Options) :
    Except Diagnostic (Option String) :=
  match options.environmentFile with
  | some path =>
    match readText reader path with
    | .ok text => .ok (some text)
    | .error error =>
      .error { message := "cannot read environment file " ++ path ++ ": " ++ error.message }
  | none => .ok options.environmentJson

/-- The environment that the options give; without any it is an empty map. -/
def environment (json : Json.Codec) (reader : FileReader) (options : Options) :
    Except Diagnostic Value :=
  match environmentText reader options with
  | .error diagnostic => .error diagnostic
  | .ok none => .ok (.map [])
  | .ok (some text) =>
    match json.read text with
    | .ok document => .ok (.ofJson document)
    | .error message =>
      .error
        { message := "invalid environment JSON: " ++ message
          notes := ["the environment must be a JSON document, usually an object"] }

/-! ## Results -/

/-- A text without blanks at its end. -/
def trimEnd (text : String) : String :=
  String.ofList (text.toList.reverse.dropWhile Text.isBlank).reverse

/-- The explanation of a code. -/
def explain (code : String) : Except Diagnostic String :=
  match Explanation.lookup? code with
  | some explanation => .ok (trimEnd explanation.long)
  | none =>
    .error
      { message := "unknown error code '" ++ code ++ "'"
        suggestion := some "codes look like RB-P002" }

/-- A document on several lines. -/
def written (json : Json.Codec) (document : Json) : Except Diagnostic String :=
  match json.writePretty document with
  | .ok text => .ok text
  | .error message => .error { message := "serialization error: " ++ message }

/-- Evaluates a chunk and shows its value. -/
def evaluate (json : Json.Codec) (reader : FileReader) (options : Options) (chunk : Chunk) :
    Except Diagnostic String :=
  match environment json reader options with
  | .error diagnostic => .error diagnostic
  | .ok environment =>
    let operators := if options.bare then Registry.empty else Registry.standard
    match Machine.run ⟨.empty, operators, environment⟩ chunk with
    | .error error => .error (.ofRunError error)
    | .ok value => .ok (if options.json then json.display value.toJson else value.display)

/-- Goes on from the expression of a source text. -/
def fromExpr (json : Json.Codec) (reader : FileReader) (options : Options) (expr : Expr) :
    Except Diagnostic String :=
  if options.emit = some .ast then written json expr.toJson
  else if options.emit = some .fmt then .ok (expr.render .standard .expanded)
  else
    match expr.compile with
    | .error error => .error (.ofCompileError error)
    | .ok chunk =>
      if options.emit = some .bytecode then .ok (trimEnd chunk.listing)
      else evaluate json reader options chunk

/-- Goes on from a source text, as far as the options ask. The source is shown with
    errors that have a place in it. -/
def fromSource (json : Json.Codec) (reader : FileReader) (options : Options) (source : String) :
    Except Diagnostic String :=
  match Token.scan Token.standardKeywords source with
  | .error error => .error ((Diagnostic.ofLexError error).withSource source)
  | .ok tokens =>
    if options.emit = some .tokens then written json (.array (tokens.map Token.toJson))
    else
      match Expr.parse .standard tokens with
      | .error error => .error ((Diagnostic.ofParseError error).withSource source)
      | .ok expr => fromExpr json reader options expr

/-- What the options ask for. -/
def result (json : Json.Codec) (reader : FileReader) (options : Options) :
    Except Diagnostic String :=
  match options.explain, options.expression with
  | some code, _ => explain code
  | none, some source => fromSource json reader options source
  | none, none => .error { message := "no expression given" }

/-! ## The command -/

/-- An error as the options ask for it. -/
def report (json : Json.Codec) (color : Bool) (options : Options) (diagnostic : Diagnostic) :
    String :=
  match options.errorFormat.getD .ansi with
  | .json => diagnostic.renderJson json ++ "\n"
  | .ansi => diagnostic.render (color && !options.noColor)

/-- Carries out the command. `color` says whether errors go to a terminal. -/
def run (packages : Packages) (reader : FileReader) (color : Bool) (arguments : List String) :
    Outcome :=
  match packages.arguments arguments with
  | .error outcome => outcome
  | .ok options =>
    match result packages.json reader options with
    | .ok text => ⟨0, text ++ "\n", ""⟩
    | .error diagnostic => ⟨1, "", report packages.json color options diagnostic⟩

end ExprMachine.CommandLine
