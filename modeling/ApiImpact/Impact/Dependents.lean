import ApiImpact.Impact.Basic
import ApiImpact.Project.Graph

/-!
The files that depend on a changed file: those from which a chain of imports leads to it. The search
goes from the file to its importers and on, one import at a time.
-/

namespace ApiImpact.ImportGraph

/-- The importers of the files in `frontier` that are neither `changed` nor found yet. -/
def nextFrontier (graph : ImportGraph) (changed : Path) (found : Std.ExtTreeMap Path Nat)
    (frontier : List Path) : List Path :=
  (Std.ExtTreeSet.ofList ((frontier.flatMap graph.importersOf).filter fun file =>
    file != changed && !found.contains file)).toList

/-- The files found so far and those reached from `frontier`, with their distances. The importers of
`frontier` have the distance `distance`. At most `limit` steps are made. -/
def reachFrom (graph : ImportGraph) (changed : Path) :
    Nat → Nat → Std.ExtTreeMap Path Nat → List Path → Std.ExtTreeMap Path Nat
  | 0, _, found, _ => found
  | limit + 1, distance, found, frontier =>
    let next := graph.nextFrontier changed found frontier
    if next.isEmpty then found
    else reachFrom graph changed limit (distance + 1)
      (found.insertMany (next.map fun file => (file, distance))) next

/-- All files that depend on `changed`, with the least number of imports that lead to it. -/
def distances (graph : ImportGraph) (changed : Path) : Std.ExtTreeMap Path Nat :=
  graph.reachFrom changed (graph.imports.size + 1) 1 ∅ [changed]

/-- The line of the reference that links `importer` to `changed`: the first that binds one of `names`, or
else the first. -/
def linkLine? (graph : ImportGraph) (importer changed : Path) (names : List String) : Option Nat :=
  let references := graph.references importer changed
  ((references.find? fun r => names.any r.binds).or references.head?).map (·.line)

/-- The files that depend on `changed`, in order of path. -/
def dependents (graph : ImportGraph) (settings : Settings) (changed : Path) (names : List String) :
    List Dependent :=
  (graph.distances changed).toList.map fun (path, depth) =>
    { path
      line := if depth = 1 then graph.linkLine? path changed names else none
      depth
      isTest := isTest settings graph.root path }

end ApiImpact.ImportGraph
