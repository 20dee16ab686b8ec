import ApiImpact.Impact.Analysis
import ApiImpact.Settings.Override

/-!
What version control knows of a project. Revisions and paths are named as they are asked for; paths are
relative to the root of the project.
-/

namespace ApiImpact

/-- The contents of files at revisions, and the files that have changed since. -/
structure History where
  /-- The text of a file at a revision. -/
  texts : List ((String × String) × String) := []
  changed : List String := []
  /-- Why no question can be answered, if that is so. -/
  failure : Option String := none

namespace History

/-- The answer to a question, unless none can be answered. -/
def answer {α : Type} (history : History) (value : α) : Except String α :=
  history.failure.elim (.ok value) .error

/-- The text of the file at `path` at a revision, if it existed. -/
def textAt (history : History) (revision path : String) : Except String (Option String) :=
  history.answer (history.texts.lookup (revision, path))

/-- The files that have changed. -/
def changedFiles (history : History) : Except String (List String) :=
  history.answer history.changed

end History

/-!
What a command works with, and why it may fail.
-/

/-- The files, the history and the time that a command sees. The working directory is the root. -/
structure Workspace where
  tree : FileTree := {}
  history : History := {}
  /-- The present time as it is written into snapshots. -/
  time : String := "1970-01-01T00:00:00Z"
  /-- The variables of the environment. -/
  environment : String → Option String := fun _ => none

/-- Why a command failed. Paths are as they were asked for. -/
inductive CommandError where
  | unreadable (path : String) (cause : FileError)
  | unwritable (path : String) (cause : FileError)
  | settings (cause : SettingsError)
  | history (cause : String)
  | notADirectory (root : Path)
  /-- Texts are given for other than one file. -/
  | needsOneFile
  /-- The surface of a file could not be taken. -/
  | capture (cause : Script.InsideCharacter)

/-- The error as text, if it has one. -/
def CommandError.message? : CommandError → Option String
  | unreadable path cause => some s!"failed to read {path}: {cause.message}"
  | unwritable path cause => some s!"failed to write {path}: {cause.message}"
  | settings cause => cause.message?
  | history cause => some s!"git error: {cause}"
  | notADirectory root => some s!"project root {root} is not a directory"
  | needsOneFile => some "--before and --after need exactly one FILE"
  | capture _ => none

namespace Workspace

/-- The file that `text` names, in normal form. -/
def locate (text : String) : Path :=
  (Path.join { absolute := true } (.ofString text)).normalize

/-- The text of the file at `path`. -/
def read (workspace : Workspace) (path : String) : Except CommandError String :=
  (workspace.tree.read (.ofString path)).mapError (.unreadable path)

/-- The name of the file that holds the settings of a project. -/
def settingsFile : String := ".ripple.yaml"

/-- The name of the manifest of a package. -/
def manifestFile : String := "package.json"

/-- The settings in the file at `path`; the defaults if there is no such file. -/
def loadSettings (workspace : Workspace) (path : String) : Except CommandError Settings := do
  let document ← if workspace.tree.isFile (.ofString path) then some <$> workspace.read path
    else pure none
  (Settings.load document workspace.environment).mapError .settings

/-- What a question to the history is answered. -/
def consult {α : Type} (ask : History → Except String α) (workspace : Workspace) :
    Except CommandError α :=
  (ask workspace.history).mapError .history

/-- A project: its settings and its graph. -/
structure Project where
  root : Path
  settings : Settings
  graph : ImportGraph

/-- The project in the directory that `text` names. -/
def openProject (workspace : Workspace) (text : String) : Except CommandError Project := do
  let root := locate text
  let settings ← workspace.loadSettings (root.join (.ofString settingsFile)).toString
  match ImportGraph.build? workspace.tree settings root with
  | some graph => return { root, settings, graph }
  | none => throw (.notADirectory root)

end Workspace

end ApiImpact
