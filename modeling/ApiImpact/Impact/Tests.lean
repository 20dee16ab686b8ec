import ApiImpact.Impact.Basic
import ApiImpact.Impact.Usage
import ApiImpact.Project.Graph

/-!
The tests that a change affects. A test counts only with evidence: it depends on the changed file, it
imports that file, or it names that file in an import and uses what changed.
-/

namespace ApiImpact.ImportGraph

/-- What the imports of a test show. -/
inductive ImportEvidence where
  /-- One of them resolves to the changed file. -/
  | resolved
  /-- These name the changed file without resolving to any file. -/
  | named (references : List ModuleReference)

/-- Looks at the imports of the file `test` in order. -/
def importEvidence (tree : FileTree) (test changed : Path) : List ModuleReference → ImportEvidence
  | [] => .named []
  | reference :: rest =>
    let found := if reference.isRelative then
      Resolution.resolve? tree test reference.specifier else none
    match found, importEvidence tree test changed rest with
    | some target, later => if target = changed then .resolved else later
    | none, .resolved => .resolved
    | none, .named later =>
      if Usage.namesTarget reference.specifier (Usage.targetName changed) then
        .named (reference :: later)
      else .named later

/-- What shows that the test `source`, which names the changed file, uses what changed. -/
def usageEvidence (test : Path) (source : String) (named : List ModuleReference)
    (changedNames : List String) : Except Script.InsideCharacter (Option Evidence) := do
  match (Language.ofPath? test).filter (·.isTyped) with
  | some language =>
    let used ← Usage.inSyntax test language source named changedNames
    return if used then some .syntaxUsage else none
  | none => return if Usage.inText source named changedNames then some .patternUsage else none

/-- What ties the file `test` to the changed file, if anything does. -/
def prove (tree : FileTree) (test changed : Path) (changedNames : List String) :
    Except Script.InsideCharacter (Option Evidence) :=
  match tree.read test with
  | .error _ => .ok none
  | .ok source =>
    match importEvidence tree test changed (ModuleReference.extract source) with
    | .resolved => .ok (some .importsFile)
    | .named [] => .ok none
    | .named references =>
      if changedNames.isEmpty then .ok (some .importsFile)
      else usageEvidence test source references changedNames

/-- The tests among the dependents, which the graph ties to the changed file. -/
def dependentTests (dependents : List Dependent) : Std.ExtTreeMap Path Evidence :=
  .ofList ((dependents.filter (·.isTest)).map fun d => (d.path, Evidence.graph))

/-- The affected tests with the file `test`, if something ties it to the changed file. -/
def addTest (tree : FileTree) (changed : Path) (changedNames : List String)
    (affected : Std.ExtTreeMap Path Evidence) (test : Path) :
    Except Script.InsideCharacter (Std.ExtTreeMap Path Evidence) := do
  if test = changed || affected.contains test then return affected
  match ← prove tree test changed changedNames with
  | some evidence => return affected.insert test evidence
  | none => return affected

/-- The tests that a change of `changedNames` in the file `changed` affects, in order of path. -/
def affectedTests (tree : FileTree) (graph : ImportGraph) (settings : Settings) (changed : Path)
    (changedNames : List String) (dependents : List Dependent) :
    Except Script.InsideCharacter (List AffectedTest) := do
  let affected ← (graph.tests settings).foldlM (addTest tree changed changedNames)
    (dependentTests dependents)
  return affected.toList.map fun (path, evidence) => ⟨path, evidence⟩

end ApiImpact.ImportGraph
