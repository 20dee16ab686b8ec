import ApiImpact.Impact.Dependents
import ApiImpact.Impact.Tests
import ApiImpact.Report.Basic

/-!
The analysis of one edit: the snapshots before and after it, what changed between them, and what of the
project that reaches.
-/

namespace ApiImpact

/-- One file before and after an edit. -/
structure Edit where
  path : Path
  before : String
  after : String
  /-- The directory at which a relative path starts. -/
  root : Path
  /-- The manifest of the package before and after the edit, if there is one. -/
  manifestBefore : Option String := none
  manifestAfter : Option String := none

namespace Edit

/-- The changed file in normal form. -/
def file (edit : Edit) : Path :=
  (edit.root.join edit.path).normalize

/-- The edit changes nothing. -/
def isIdentity (edit : Edit) : Bool :=
  edit.before == edit.after && edit.manifestBefore == edit.manifestAfter

/-- The report on what `change` of the file reaches. -/
def report (tree : FileTree) (graph : ImportGraph) (settings : Settings) (file : Path)
    (change : SurfaceChange) : Except Script.InsideCharacter ImpactReport := do
  let names := change.changedNames
  let dependents := graph.dependents settings file names
  let tests ← graph.affectedTests tree settings file names dependents
  return .of (Path.display graph.root file) change graph.root dependents tests

/-- The analysis of the edit. -/
def analyze (tree : FileTree) (graph : ImportGraph) (settings : Settings) (edit : Edit) :
    Except Script.InsideCharacter ImpactReport := do
  let sourceFile := Path.display graph.root edit.file
  if edit.isIdentity then return { sourceFile, status := .unchanged }
  let before ← Snapshot.capture settings sourceFile edit.before edit.manifestBefore
  let after ← Snapshot.capture settings sourceFile edit.after edit.manifestAfter
  if before.isFailed || after.isFailed then return { sourceFile, status := .unanalyzable }
  let change := SurfaceChange.between settings.pairingThreshold before after
  if change.isEmpty then return { sourceFile, status := .unchanged }
  report tree graph settings edit.file change

end Edit

end ApiImpact
