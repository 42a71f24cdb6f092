/-
  ExprMachine.Main

  The command: reads files and prints.
-/
import ExprMachine.Executable.Packages

namespace ExprMachine.Executable

open CommandLine

/-- The failure that the system reports for a file. -/
def fileError (error : IO.Error) : FileError :=
  match error with
  | .noFileOrDirectory .. => .notFound
  | .permissionDenied .. => .permissionDenied
  | .inappropriateType .. => .isADirectory
  | error => .other (toString error)

/-- Reads the environment file that the arguments name, if they name one. -/
def loadFile (arguments : List String) : IO FileReader := do
  match packages.arguments arguments with
  | .ok options =>
    match options.environmentFile with
    | none => return fun _ => .error .notFound
    | some path =>
      try
        let bytes ← IO.FS.readBinFile path
        return fun _ => .ok bytes
      catch error => return fun _ => .error (fileError error)
  | .error _ => return fun _ => .error .notFound

end ExprMachine.Executable

/-- Runs the command with its arguments. -/
def main (arguments : List String) : IO UInt32 := do
  let reader ← ExprMachine.Executable.loadFile arguments
  let color ← (← IO.getStderr).isTty
  let outcome := ExprMachine.CommandLine.run ExprMachine.Executable.packages reader color arguments
  IO.print outcome.stdout
  IO.eprint outcome.stderr
  return outcome.status
