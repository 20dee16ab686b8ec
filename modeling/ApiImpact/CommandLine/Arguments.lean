import ApiImpact.CommandLine.Basic
import ApiImpact.Text.Blank

/-!
Reading of command line arguments. The value of an option or a file name is only checked when the next
argument is understood, so an argument that is not known is reported before a bad value in front of it.
-/

namespace ApiImpact

/-- The names of the commands. -/
inductive CommandName where
  | analyze
  | snapshot
  | dependents
  deriving DecidableEq, Repr

/-- The command that `text` names. -/
def CommandName.ofText? : String → Option CommandName
  | "analyze" => some .analyze
  | "snapshot" => some .snapshot
  | "dependents" => some .dependents
  | _ => none

/-- Options that take a value. -/
inductive OptionName where
  | root
  | revision
  | before
  | after
  | format
  | output
  deriving DecidableEq, Repr

/-- The option of a command that `text` names. -/
def CommandName.option? : CommandName → String → Option OptionName
  | .analyze, "root" => some .root
  | .analyze, "rev" => some .revision
  | .analyze, "before" => some .before
  | .analyze, "after" => some .after
  | .analyze, "format" => some .format
  | .analyze, "output" => some .output
  | .snapshot, "format" => some .format
  | .dependents, "root" => some .root
  | _, _ => none

/-- Arguments that take no value. -/
inductive Switch where
  | verbose
  | help
  | version
  | failOnBreaking
  deriving DecidableEq, Repr

/-- The switch that a word behind two dashes names. -/
def Switch.ofWord? : String → Option Switch
  | "verbose" => some .verbose
  | "help" => some .help
  | "version" => some .version
  | "fail-on-breaking" => some .failOnBreaking
  | _ => none

/-- The switch that a letter behind one dash names. -/
def Switch.ofLetter? : Char → Option Switch
  | 'v' => some .verbose
  | 'h' => some .help
  | 'V' => some .version
  | _ => none

/-- The switch may stand behind the command. -/
def CommandName.hasSwitch : CommandName → Switch → Bool
  | _, .verbose | _, .help | .analyze, .failOnBreaking => true
  | _, _ => false

/-- The command takes one file; otherwise it takes any number. -/
def CommandName.takesOneFile : CommandName → Bool
  | .analyze => false
  | _ => true

/-- The format of reports that `text` names. -/
def ReportFormat.ofText? : String → Option ReportFormat
  | "json" => some .json
  | "text" => some .text
  | _ => none

/-- The format of snapshots that `text` names. -/
def SnapshotFormat.ofText? : String → Option SnapshotFormat
  | "json" => some .json
  | "yaml" => some .yaml
  | _ => none

/-- `value` is a value of the option: a format has one of its names, a path is not empty, and a revision may
be anything. -/
def CommandName.accepts (command : CommandName) (option : OptionName) (value : String) : Bool :=
  match option with
  | .format =>
    if command = .snapshot then (SnapshotFormat.ofText? value).isSome
    else (ReportFormat.ofText? value).isSome
  | .revision => true
  | _ => !value.isEmpty

/-- What kind of argument a text is by its form. -/
inductive ArgumentForm where
  /-- The dashes behind which all arguments are files. -/
  | separator
  /-- A word behind two dashes, with the value attached to it by an equals sign, if there is one. -/
  | long (name : String) (value : Option String)
  /-- Letters behind one dash. -/
  | short (letters : List Char)
  | value (text : String)
  deriving Repr

/-- The form of an argument. A dash alone is a value. -/
def ArgumentForm.of (text : String) : ArgumentForm :=
  match text.toList with
  | ['-', '-'] => separator
  | '-' :: '-' :: word =>
    let name := word.takeWhile (· != '=')
    long (.ofList name)
      (if name.length < word.length then some (.ofList (word.drop (name.length + 1))) else none)
  | '-' :: c :: letters => short (c :: letters)
  | _ => value text

/-- What has been read but not checked. -/
inductive Pending where
  | option (name : OptionName) (value : Option String)
  | files (names : List String)
  deriving Repr

/-- The arguments of a command as far as they are read. -/
structure Given where
  values : List (OptionName × String) := []
  files : List String := []
  failOnBreaking : Bool := false
  verbosity : Nat := 0
  pending : Option Pending := none
  /-- All further arguments are files. -/
  separated : Bool := false
  deriving Repr

namespace Given

/-- Checks what is pending and takes it over. -/
def settle (command : CommandName) (given : Given) : Except NoCommand Given :=
  match given.pending with
  | none => .ok given
  | some (.option _ none) => .error .invalidValue
  | some (.option name (some value)) =>
    if (given.values.lookup name).isSome then .error .repeated
    else if !command.accepts name value then .error .invalidValue
    else .ok { given with values := given.values ++ [(name, value)], pending := none }
  | some (.files names) =>
    if names.any String.isEmpty then .error .invalidValue
    else .ok { given with files := given.files ++ names, pending := none }

/-- Reads a file name. -/
def addFile (command : CommandName) (given : Given) (name : String) : Except NoCommand Given :=
  let isPending := match given.pending with
    | some (.files _) => true
    | _ => false
  if command.takesOneFile && (isPending || !given.files.isEmpty) then .error .unknownArgument
  else match given.pending with
    | some (.files names) => .ok { given with pending := some (.files (names ++ [name])) }
    | _ => do
      let given ← given.settle command
      return { given with pending := some (.files [name]) }

/-- Turns a switch on. -/
def turn (command : CommandName) (given : Given) (switch : Switch) : Except NoCommand Given := do
  let given ← given.settle command
  match switch with
  | .verbose => return { given with verbosity := given.verbosity + 1 }
  | .failOnBreaking =>
    if given.failOnBreaking then throw .repeated
    return { given with failOnBreaking := true }
  | .help => throw .help
  | .version => throw .version

/-- Reads a word behind two dashes. -/
def addLong (command : CommandName) (given : Given) (name : String) (value : Option String) :
    Except NoCommand Given :=
  match (Switch.ofWord? name).filter command.hasSwitch, command.option? name with
  | some switch, _ => if value.isSome then .error .superfluousValue else given.turn command switch
  | none, some option => do
    let given ← given.settle command
    let given := { given with pending := some (.option option value) }
    if value.isSome then given.settle command else return given
  | none, none => .error .unknownArgument

/-- Reads a letter behind one dash. -/
def addLetter (command : CommandName) (given : Given) (letter : Char) : Except NoCommand Given :=
  match (Switch.ofLetter? letter).filter command.hasSwitch with
  | some switch => given.turn command switch
  | none => .error .unknownArgument

/-- Reads one argument. -/
def add (command : CommandName) (given : Given) (argument : String) : Except NoCommand Given :=
  if given.separated then given.addFile command argument
  else match ArgumentForm.of argument, given.pending with
    | .separator, _ => .ok { given with separated := true }
    | .long name value, _ => given.addLong command name value
    | .short letters, _ => letters.foldlM (addLetter command) given
    | .value text, some (.option name none) =>
      .ok { given with pending := some (.option name (some text)) }
    | .value text, _ => given.addFile command text

/-- The command with all its arguments read. -/
def finish (command : CommandName) (given : Given) : Except NoCommand Command := do
  let given ← given.settle command
  let value (name : OptionName) : Option String := given.values.lookup name
  match command, given.files with
  | .analyze, files => return .analyze {
      files
      root := (value .root).getD "."
      revision := (value .revision).getD "HEAD"
      before := value .before
      after := value .after
      format := ((value .format).bind ReportFormat.ofText?).getD .json
      output := value .output
      failOnBreaking := given.failOnBreaking }
  | .snapshot, file :: _ =>
    return .snapshot file (((value .format).bind SnapshotFormat.ofText?).getD .json)
  | .dependents, file :: _ => return .dependents file ((value .root).getD ".")
  | _, [] => throw .missingFile

end Given

namespace Invocation

/-- What `help` answers to the names behind it: help on a command, unless there is no such command. -/
def helpOn : List String → NoCommand
  | [] => .help
  | [name] => if name = "help" ∨ (CommandName.ofText? name).isSome then .help else .unknownCommand
  | _ => .unknownCommand

/-- Turns a switch in front of the command on; the new verbosity. -/
def turn (verbosity : Nat) : Switch → Except NoCommand Nat
  | .verbose => .ok (verbosity + 1)
  | .help => .error .help
  | .version => .error .version
  | .failOnBreaking => .error .unknownArgument

/-- Reads a word behind two dashes in front of the command. -/
def addLong (verbosity : Nat) (name : String) (value : Option String) : Except NoCommand Nat :=
  match Switch.ofWord? name with
  | none | some .failOnBreaking => .error .unknownArgument
  | some switch => if value.isSome then .error .superfluousValue else turn verbosity switch

/-- Reads a letter behind one dash in front of the command. -/
def addLetter (verbosity : Nat) (letter : Char) : Except NoCommand Nat :=
  (Switch.ofLetter? letter).elim (.error .unknownArgument) (turn verbosity)

/-- What is wrong with arguments that end before the command. -/
def ended (verbosity : Nat) : NoCommand :=
  if verbosity = 0 then .noArguments else .missingCommand

/-- What is wrong with arguments whose command stands behind the separator. -/
def separated (verbosity : Nat) : List String → NoCommand
  | [] => ended verbosity
  | name :: _ =>
    if name = "help" ∨ (CommandName.ofText? name).isSome then .unknownArgument else .unknownCommand

/-- Reads the arguments of `command`. Its own verbosity, if it is given, counts instead of the one in front
of the command. -/
def ofCommand (command : CommandName) (verbosity : Nat) (arguments : List String) :
    Except NoCommand Invocation := do
  let given ← arguments.foldlM (Given.add command) ({} : Given)
  let request ← given.finish command
  return { command := request, verbosity := if given.verbosity = 0 then verbosity else given.verbosity }

/-- Reads arguments from the beginning up to the command, and then those of the command. -/
def read (verbosity : Nat) : List String → Except NoCommand Invocation
  | [] => .error (ended verbosity)
  | argument :: rest =>
    match CommandName.ofText? argument, ArgumentForm.of argument with
    | some command, _ => ofCommand command verbosity rest
    | none, .separator => .error (separated verbosity rest)
    | none, .long name value => addLong verbosity name value >>= (read · rest)
    | none, .short letters => letters.foldlM addLetter verbosity >>= (read · rest)
    | none, .value text => .error (if text = "help" then helpOn rest else .unknownCommand)

/-- The invocation that the arguments ask for. -/
def ofArguments (arguments : List String) : Except NoCommand Invocation :=
  read 0 arguments

end Invocation

end ApiImpact
