import Schemata.Cli.Run

/-! # The program

Runs the command line that the program is started with, in the file system.  A command line that is
refused ends with the code two, and a command that fails with the code one. -/

namespace Schemata.Cli

/-- The fault that an error of the file system stands for. -/
def faultOfError (error : IO.Error) : FileFault :=
  match error with
  | .noFileOrDirectory .. => .notFound
  | .alreadyExists .. => .alreadyExists
  | .inappropriateType _ code _ => if code = 21 then .isADirectory else .notADirectory
  | error => .other (toString error)

/-- A step in the file system, with its error as a fault. -/
def attempt {α : Type} (step : IO α) : IO (Except FileFault α) := do
  match ← step.toBaseIO with
  | .ok a => pure (.ok a)
  | .error error => pure (.error (faultOfError error))

/-- The file system, seen from the working directory. -/
def fileSystem : IO (Host IO) := do
  let directory ← IO.currentDir
  pure {
    directory := directory.toString
    exists? path := (directory / path).pathExists
    read path := attempt (IO.FS.readFile (directory / path))
    write path text := attempt (IO.FS.writeFile (directory / path) text)
    makeDirectory path := attempt (IO.FS.createDirAll (directory / path))
    input := do (← IO.getStdin).readToEnd }

/-- The exit code for a failure. -/
def Failure.exitCode : Failure → UInt32
  | .usage .displayHelp | .usage .displayVersion => 0
  | .usage _ => 2
  | _ => 1

end Schemata.Cli

open Schemata.Cli in
/-- Runs the command line.  Colours are used on a terminal. -/
def main (arguments : List String) : IO UInt32 := do
  let host ← fileSystem
  let output ← IO.getStdout
  match ← (runArguments host (← output.isTty) arguments).run with
  | .ok printed =>
    IO.eprint printed.warnings
    unless printed.output.isEmpty do IO.println printed.output
    pure 0
  | .error failure =>
    IO.eprintln ("Error: " ++ failure.message)
    pure failure.exitCode
