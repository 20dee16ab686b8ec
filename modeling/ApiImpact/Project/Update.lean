import ApiImpact.Project.Graph

/-!
Keeping an import graph up to date when a single file changes. The files to look at again are those
that take the changed file into consideration.
-/

namespace ApiImpact.ImportGraph

/-- The importers of files without `importer` among those of `target`; a file without importers is not
listed. -/
def unlink (importer : Path) (importers : Std.ExtTreeMap Path (Std.ExtTreeSet Path))
    (target : Path) : Std.ExtTreeMap Path (Std.ExtTreeSet Path) :=
  match importers[target]? with
  | none => importers
  | some others =>
    let others := others.erase importer
    if others.isEmpty then importers.erase target else importers.insert target others

/-- The graph without the file `path` and its imports. Imports of it by others stay. -/
def dropFile (graph : ImportGraph) (path : Path) : ImportGraph :=
  { graph with
    importers := (graph.importsOf path).foldl (unlink path) graph.importers
    imports := graph.imports.erase path
    considered := graph.considered.erase path
    files := graph.files.erase path }

/-- The graph with the file `path` read again. -/
def reread (tree : FileTree) (graph : ImportGraph) (path : Path) : ImportGraph :=
  (graph.dropFile path).addFile tree path

/-- The other files that take `path` into consideration. -/
def dependentsOn (graph : ImportGraph) (path : Path) : List Path :=
  (graph.considered.toList.filter fun (importer, paths) =>
    importer != path && paths.contains path).map (·.1)

/-- The graph after `path` appeared or disappeared: the files that take it into consideration are read
again. -/
def refresh (tree : FileTree) (graph : ImportGraph) (path : Path) : ImportGraph :=
  (graph.dependentsOn path).foldl (reread tree) graph

/-- Forgets what the file at `path` contributes. If it is gone, its importers are read again. -/
def invalidate (tree : FileTree) (graph : ImportGraph) (path : Path) : ImportGraph :=
  let path := graph.key path
  let graph := graph.dropFile path
  if tree.isFile path then graph else graph.refresh tree path

/-- Brings the graph up to date after the file at `path` changed, appeared or disappeared. -/
def rebuild (tree : FileTree) (graph : ImportGraph) (path : Path) : ImportGraph :=
  let path := graph.key path
  let present := tree.isFile path && path.isSource
  let updated :=
    if present then graph.reread tree path else graph.dropFile path
  if graph.files.contains path != present then updated.refresh tree path else updated

end ApiImpact.ImportGraph
