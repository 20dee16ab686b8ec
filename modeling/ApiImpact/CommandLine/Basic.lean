/-!
What the command line asks for, and what is said about arguments that name no command to carry out.
-/

namespace ApiImpact

/-- The formats of reports. -/
inductive ReportFormat where
  | json
  | text
  deriving DecidableEq, Repr

/-- The formats of snapshots. -/
inductive SnapshotFormat where
  | json
  | yaml
  deriving DecidableEq, Repr

/-- What to analyze and what to do with the reports. -/
structure AnalyzeRequest where
  /-- The files to analyze; if there is none, the ones that have changed. -/
  files : List String
  root : String := "."
  /-- The revision that holds the files as they were. -/
  revision : String := "HEAD"
  /-- The file that holds the text before the change, in place of the revision. -/
  before : Option String := none
  /-- The file that holds the text after the change, in place of the file itself. -/
  after : Option String := none
  format : ReportFormat := .json
  /-- The file to which the reports are written. -/
  output : Option String := none
  failOnBreaking : Bool := false
  deriving Repr

/-- One of the commands. -/
inductive Command where
  /-- Report what the changes of files break. -/
  | analyze (request : AnalyzeRequest)
  /-- Show the surface of a file. -/
  | snapshot (file : String) (format : SnapshotFormat)
  /-- List the files and tests that depend on a file. -/
  | dependents (file root : String)
  deriving Repr

/-- A command and how much is said about its progress. -/
structure Invocation where
  command : Command
  verbosity : Nat
  deriving Repr

/-- The level of the progress messages. -/
def Invocation.logLevel (invocation : Invocation) : String :=
  match invocation.verbosity with
  | 0 => "warn"
  | 1 => "info"
  | 2 => "debug"
  | _ => "trace"

/-- Why arguments name no command to carry out. -/
inductive NoCommand where
  /-- They ask for help. -/
  | help
  /-- They ask for the version. -/
  | version
  /-- There are none. -/
  | noArguments
  | missingCommand
  | unknownCommand
  | unknownArgument
  /-- The value of an option is missing or none of its values. -/
  | invalidValue
  | missingFile
  /-- What may be given once is given twice. -/
  | repeated
  /-- A switch is given a value. -/
  | superfluousValue
  deriving DecidableEq, Repr

/-- How the program is called. -/
def usage : String :=
  "Usage: api-impact [-v]... analyze [FILES]... [--root DIR] [--rev REV] [--before FILE] [--after FILE]\n"
    ++ "       [--format json|text] [--output FILE] [--fail-on-breaking]\n"
    ++ "       api-impact [-v]... snapshot FILE [--format json|yaml]\n"
    ++ "       api-impact [-v]... dependents FILE [--root DIR]"

namespace NoCommand

/-- The arguments ask for something that is answered without a command. -/
def isQuestion : NoCommand → Bool
  | help | version => true
  | _ => false

/-- What is answered. -/
def message : NoCommand → String
  | help | noArguments => usage
  | version => "api-impact 0.1.0"
  | missingCommand => "error: a command is missing\n" ++ usage
  | unknownCommand => "error: there is no such command\n" ++ usage
  | unknownArgument => "error: an argument is not known\n" ++ usage
  | invalidValue => "error: the value of an argument is missing or not valid\n" ++ usage
  | missingFile => "error: the name of a file is missing\n" ++ usage
  | repeated => "error: an argument is given twice\n" ++ usage
  | superfluousValue => "error: an argument that takes no value is given one\n" ++ usage

end NoCommand

end ApiImpact
