/-
  ExprMachine.Proofs.CommandLine.Settings

  How the settings of the command are written as arguments. Each setting is written at
  most once, in one of its ways and at any place among the others (`Written`). What is
  asked of a parser of arguments is that it reads such settings back when they can stand
  together (`ReadsSettings`).
-/
import ExprMachine.CommandLine.Run

namespace ExprMachine

namespace CommandLine

-- ============================================================================
-- Writing settings
-- ============================================================================

/-- Whether an argument does not begin with a dash. -/
def Plain (argument : String) : Prop :=
  argument.toList.head? ≠ some '-'

instance (argument : String) : Decidable (Plain argument) :=
  inferInstanceAs (Decidable (_ ≠ _))

/-- How an option is written with its value: apart, or joined by an equals sign. -/
inductive WritesValue (name value : String) : List String → Prop where
  | apart (plain : Plain value) : WritesValue name value ["--" ++ name, value]
  | joined : WritesValue name value ["--" ++ name ++ "=" ++ value]

/-- How the file of the environment is written. Its option has a short name too, which the
    path can follow directly. -/
inductive WritesFile (path : String) : List String → Prop where
  | long {piece : List String} (writes : WritesValue "env" path piece) : WritesFile path piece
  | short (plain : Plain path) : WritesFile path ["-e", path]
  | shortEquals : WritesFile path ["-e=" ++ path]
  | shortJoined (noEquals : path.toList.head? ≠ some '=') : WritesFile path ["-e" ++ path]

/-- The arguments for one setting more. -/
inductive Sets : Options → List String → Options → Prop where
  | expression {options : Options} {text : String} (unset : options.expression = none)
      (plain : Plain text) : Sets options [text] { options with expression := some text }
  | environmentFile {options : Options} {path : String} {piece : List String}
      (unset : options.environmentFile = none) (named : path ≠ "")
      (writes : WritesFile path piece) :
      Sets options piece { options with environmentFile := some path }
  | environmentJson {options : Options} {text : String} {piece : List String}
      (unset : options.environmentJson = none) (writes : WritesValue "env-json" text piece) :
      Sets options piece { options with environmentJson := some text }
  | emit {options : Options} {name : String} {target : Target} {piece : List String}
      (unset : options.emit = none) (named : Target.ofName? name = some target)
      (writes : WritesValue "emit" name piece) :
      Sets options piece { options with emit := some target }
  | json {options : Options} (unset : options.json = false) :
      Sets options ["--json"] { options with json := true }
  | bare {options : Options} (unset : options.bare = false) :
      Sets options ["--bare"] { options with bare := true }
  | errorFormat {options : Options} {name : String} {format : ErrorFormat} {piece : List String}
      (unset : options.errorFormat = none) (named : ErrorFormat.ofName? name = some format)
      (writes : WritesValue "diagnostics" name piece) :
      Sets options piece { options with errorFormat := some format }
  | noColor {options : Options} (unset : options.noColor = false) :
      Sets options ["--no-color"] { options with noColor := true }
  | explain {options : Options} {code : String} {piece : List String}
      (unset : options.explain = none) (writes : WritesValue "explain" code piece) :
      Sets options piece { options with explain := some code }

/-- Whether these arguments write out these options, one setting after the other. -/
inductive Written : Options → List String → Prop where
  | nothing : Written {} []
  | setting {options next : Options} {arguments piece : List String}
      (written : Written options arguments) (sets : Sets options piece next) :
      Written next (arguments ++ piece)

-- ============================================================================
-- Reading settings
-- ============================================================================

/-- Whether settings can stand together: the environment is given once at most, and there
    is an expression, or a code to explain. -/
structure Options.Coherent (options : Options) : Prop where
  once : options.environmentFile = none ∨ options.environmentJson = none
  asked : options.expression.isSome = true ∨ options.explain.isSome = true

/-- What the documentation of the parser of arguments says about settings that are written
    out and can stand together: they are the options that the arguments give. -/
def Packages.ReadsSettings (packages : Packages) : Prop :=
  ∀ options arguments, Written options arguments → options.Coherent →
    packages.arguments arguments = .ok options

end CommandLine

/-- What the documentation of a library for JSON says about writing documents, all keys of
    which are texts: it succeeds. -/
def Json.Codec.WritesDocuments (codec : Json.Codec) : Prop :=
  ∀ document, ∃ text, codec.writePretty document = .ok text

end ExprMachine
