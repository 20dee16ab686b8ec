import ApiImpact.CommandLine.Arguments
import ApiImpact.CommandLine.Bundle
import ApiImpact.CommandLine.Run

/-!
The program. It reads the workspace as a JSON document from standard input, carries out the command that the
arguments name, and ends with 2 if a breaking change was to be pointed out, and with 1 on errors.
-/

namespace ApiImpact.Program

/-- All that can still be read from `stream`. -/
partial def readAll (stream : IO.FS.Stream) (before : String) : IO String := do
  let line ← stream.getLine
  if line.isEmpty then return before else readAll stream (before ++ line)

/-- The variables of the environment that override settings. -/
def environment : IO (List (String × String)) := do
  let names := SettingName.all.filterMap SettingName.variableName?
  names.filterMapM fun name => do
    return (← IO.getEnv name).map fun value => (name, value)

/-- Carries out a command on the workspace in `document`. -/
def carryOut (command : Command) (document : Json) : IO UInt32 := do
  let overrides ← environment
  let workspace :=
    { Workspace.ofJson document with environment := fun name => overrides.lookup name }
  match command.run workspace with
  | .error e =>
    IO.eprintln (e.message?.getD "the settings or a source file cannot be read")
    return 1
  | .ok result =>
    IO.print result.printed
    if let some (path, text) := result.written then IO.FS.writeFile path text
    return if result.foundBreaking then 2 else 0

end ApiImpact.Program

open ApiImpact in
/-- Carries out what the arguments ask for. -/
def main (arguments : List String) : IO UInt32 := do
  match Invocation.ofArguments arguments with
  | .error answer =>
    if answer.isQuestion then
      IO.println answer.message
      return 0
    IO.eprintln answer.message
    return 1
  | .ok invocation =>
    match Json.read? (← Program.readAll (← IO.getStdin) "") with
    | some document => Program.carryOut invocation.command document
    | none =>
      IO.eprintln "the workspace is not a JSON document"
      return 1
