import ApiImpact.CommandLine.Basic
import ApiImpact.CommandLine.Workspace
import ApiImpact.Impact.Package
import ApiImpact.Json.Printer
import ApiImpact.Report.Encoding
import ApiImpact.Report.Text
import ApiImpact.Surface.Encoding
import ApiImpact.Yaml.Printer

/-!
The reports on the changes of a project: one for every changed file, and one for the manifest of the
package if it has changed.
-/

namespace ApiImpact.AnalyzeRequest

open Workspace

/-- The files to analyze. Without names these are the source files that have changed. -/
def targets (request : AnalyzeRequest) (workspace : Workspace) (root : Path) :
    Except CommandError (List Path) := do
  if !request.files.isEmpty then return request.files.map locate
  let changed ← consult History.changedFiles workspace
  let sources := (changed.map Path.ofString).filter fun file => (Language.ofPath? file).isSome
  return sources.map fun file => (root.join file).normalize

/-- The text of the file at `path` at the revision, if it existed. -/
def textAtRevision (request : AnalyzeRequest) (workspace : Workspace) (root path : Path) :
    Except CommandError (Option String) :=
  consult (·.textAt request.revision (Path.display root path)) workspace

/-- The text of the file at `path`, if there is one. -/
def presentText (workspace : Workspace) (path : Path) : Except CommandError (Option String) :=
  if workspace.tree.isFile path then some <$> workspace.read path.toString else pure none

/-- The change of a file. A file that does not exist on one side is empty there. -/
def edit (request : AnalyzeRequest) (workspace : Workspace) (root path : Path) :
    Except CommandError Edit := do
  let before ← match request.before with
    | some file => workspace.read file
    | none => (·.getD "") <$> request.textAtRevision workspace root path
  let after ← match request.after with
    | some file => workspace.read file
    | none => (·.getD "") <$> presentText workspace path
  return { path, before, after, root }

/-- The report on the manifest of the package. Where the text before the change is given, there is no
revision to compare with, and the manifest counts as unchanged. -/
def manifestReport (request : AnalyzeRequest) (workspace : Workspace) (root : Path) :
    Except CommandError ImpactReport := do
  let path := root.join (.ofString manifestFile)
  let after ← presentText workspace path
  let before ← if request.before.isSome then pure after
    else request.textAtRevision workspace root path
  return .ofManifests manifestFile before after

/-- All reports. -/
def reports (request : AnalyzeRequest) (workspace : Workspace) :
    Except CommandError (List ImpactReport) := do
  if (request.before.isSome || request.after.isSome) && request.files.length != 1 then
    throw .needsOneFile
  let project ← workspace.openProject request.root
  let files ← request.targets workspace project.root
  let edits ← files.mapM (request.edit workspace project.root)
  let reports ← edits.mapM fun edit =>
    (edit.analyze workspace.tree project.graph project.settings).mapError .capture
  let manifest ← request.manifestReport workspace project.root
  return if manifest.status = .unchanged then reports else reports ++ [manifest]

/-- The reports in a format. -/
def render (reports : List ImpactReport) : ReportFormat → String
  | .json => (Json.array (reports.map ImpactReport.toJson)).pretty ++ "\n"
  | .text => "\n".intercalate (reports.map ImpactReport.toText)

end ApiImpact.AnalyzeRequest

/-!
Carrying out a command.
-/

namespace ApiImpact

/-- What a command did: what it printed, the file that it wrote, and whether it was asked to point out a
breaking change and found one. -/
structure CommandResult where
  printed : String := ""
  written : Option (String × String) := none
  foundBreaking : Bool := false
  deriving Repr

open Workspace

/-- Analyzes changes and prints or writes the reports. -/
def AnalyzeRequest.run (request : AnalyzeRequest) (workspace : Workspace) :
    Except CommandError CommandResult := do
  let reports ← request.reports workspace
  let text := render reports request.format
  let foundBreaking := request.failOnBreaking && reports.any ImpactReport.hasBreaking
  match request.output with
  | none => return { printed := text, foundBreaking }
  | some path =>
    let _ ← (workspace.tree.write (.ofString path) text).mapError (.unwritable path)
    return { written := some (path, text), foundBreaking }

/-- The snapshot of a file, under the name by which it was asked for. -/
def Workspace.snapshot (workspace : Workspace) (file : String) : Except CommandError Snapshot := do
  let source ← workspace.read (locate file).toString
  let settings ← workspace.loadSettings ("/./" ++ settingsFile)
  (Snapshot.capture settings (Path.slashed file) source none).mapError .capture

/-- The snapshot in a format, taken at `time`. -/
def Snapshot.render (snapshot : Snapshot) (time : String) : SnapshotFormat → String
  | .json => (snapshot.toStampedJson time).pretty ++ "\n"
  | .yaml => Yaml.print (snapshot.toStampedJson time)

/-- The lines that list the dependents of a file: those that are no tests, with the line of their import
if they import the file themselves, and then the tests under a heading. -/
def Workspace.dependentLines (workspace : Workspace) (file root : String) :
    Except CommandError (List String) := do
  let project ← workspace.openProject root
  let target := locate file
  let dependents := project.graph.dependents project.settings target []
  let tests ← (project.graph.affectedTests workspace.tree project.settings target []
    dependents).mapError .capture
  let name := Path.display project.graph.root
  let files := (dependents.filter (!·.isTest)).map fun d =>
    name d.path ++ d.line.elim "" fun line => s!":{line}"
  let testLines := if tests.isEmpty then [] else "tests:" :: tests.map fun t => "  " ++ name t.path
  return files ++ testLines

/-- Carries out a command. -/
def Command.run (workspace : Workspace) : Command → Except CommandError CommandResult
  | analyze request => request.run workspace
  | snapshot file format => do
    let snapshot ← workspace.snapshot file
    return { printed := snapshot.render workspace.time format }
  | dependents file root => do
    let lines ← workspace.dependentLines file root
    return { printed := String.join (lines.map (· ++ "\n")) }

end ApiImpact
