import ApiImpact.Language
import ApiImpact.ModuleReference.Clause
import ApiImpact.ModuleReference.Extraction
import ApiImpact.Project.Tree
import ApiImpact.Settings

/-!
Which file a relative module specifier stands for. The specifier may leave out the extension, name a
directory with an index file, or name the script that a typed source is compiled to.
-/

namespace ApiImpact.Resolution

/-- The extensions that a specifier may leave out, in the order in which they are tried. -/
def extensions : List String :=
  ["ts", "tsx", "d.ts", "mts", "cts", "js", "jsx", "mjs", "cjs"]

/-- The extensions of typed sources that are compiled to scripts of this extension. -/
def typedExtensions : String → List String
  | "js" => ["ts", "tsx"]
  | "jsx" => ["tsx"]
  | "mjs" => ["mts"]
  | "cjs" => ["cts"]
  | _ => []

/-- The files that `base` may stand for: itself, a typed source, a file with its extension left out, or
the index of a directory. -/
def candidatesOf (base : Path) : List Path :=
  (if base.isSource then [base] else [])
    ++ ((base.extension?.map typedExtensions).getD []).map base.withExtension
    ++ extensions.map (fun extension => base.appendText s!".{extension}")
    ++ extensions.map fun extension => base.join { segments := [.name s!"index.{extension}"] }

/-- The files that `specifier` may stand for in the file `importer`, the preferred ones first. -/
def candidates (importer : Path) (specifier : String) : List Path :=
  if isRelativeSpecifier specifier then
    candidatesOf (((importer.parent?.getD {}).join (.ofString specifier)).normalize)
  else []

/-- The file that `specifier` stands for in the file `importer`. -/
def resolve? (tree : FileTree) (importer : Path) (specifier : String) : Option Path :=
  ((candidates importer specifier).find? tree.isFile).map Path.normalize

end ApiImpact.Resolution

/-!
The graph of imports between the source files of a project, in both directions.
-/

namespace ApiImpact

/-- The source files of a project and the relative imports between them. -/
structure ImportGraph where
  root : Path := {}
  /-- For every importing file the files it imports, each with the references to it, in order. -/
  imports : Std.ExtTreeMap Path (Std.ExtTreeMap Path (List ModuleReference)) := ∅
  /-- For every imported file the files that import it. -/
  importers : Std.ExtTreeMap Path (Std.ExtTreeSet Path) := ∅
  /-- For every file with relative imports all files that they may stand for. -/
  considered : Std.ExtTreeMap Path (Std.ExtTreeSet Path) := ∅
  files : Std.ExtTreeSet Path := ∅
  /-- The walk stopped before it had seen the whole project. -/
  truncated : Bool := false

namespace ImportGraph

/-- The files that import `target`, in order. -/
def importersOf (graph : ImportGraph) (target : Path) : List Path :=
  (graph.importers[target]?.getD ∅).toList

/-- The files that `importer` imports, in order. -/
def importsOf (graph : ImportGraph) (importer : Path) : List Path :=
  (graph.imports[importer]?.getD ∅).keys

/-- The references of `importer` to `target`. -/
def references (graph : ImportGraph) (importer target : Path) : List ModuleReference :=
  ((graph.imports[importer]?.getD ∅)[target]?).getD []

/-- The number of pairs of an importing and an imported file. -/
def edgeCount (graph : ImportGraph) : Nat :=
  (graph.imports.values.map (·.size)).foldl (· + ·) 0

/-- The form in which the graph knows `path`; a relative path starts at the root. -/
def key (graph : ImportGraph) (path : Path) : Path :=
  (graph.root.join path).normalize

/-- The graph in which `importer` refers to `target` once more. -/
def link (graph : ImportGraph) (importer target : Path) (reference : ModuleReference) : ImportGraph :=
  let targets := graph.imports[importer]?.getD ∅
  let references := (targets[target]?).getD [] ++ [reference]
  { graph with
    imports := graph.imports.insert importer (targets.insert target references)
    importers := graph.importers.insert target
      ((graph.importers[target]?.getD ∅).insert importer) }

/-- The graph in which `importer` takes all of `paths` into consideration. -/
def consider (graph : ImportGraph) (importer : Path) (paths : List Path) : ImportGraph :=
  { graph with
    considered := graph.considered.insert importer
      ((graph.considered[importer]?.getD ∅).insertMany paths) }

/-- Takes one relative reference of the file `importer` in. A reference of a file to itself does not
count. -/
def addReference (tree : FileTree) (importer : Path) (graph : ImportGraph)
    (reference : ModuleReference) : ImportGraph :=
  let graph := graph.consider importer (Resolution.candidates importer reference.specifier)
  match Resolution.resolve? tree importer reference.specifier with
  | some target => if target = importer then graph else graph.link importer target reference
  | none => graph

/-- Takes the file at `path` in, unless it cannot be read. -/
def addFile (tree : FileTree) (graph : ImportGraph) (path : Path) : ImportGraph :=
  let importer := path.normalize
  match tree.read importer with
  | .error _ => graph
  | .ok text =>
    ((ModuleReference.extract text).filter (·.isRelative)).foldl (addReference tree importer)
      { graph with files := graph.files.insert importer }

/-- The source files below `directory`. Directories with a skipped name are not entered, and ones that
cannot be listed are left out. -/
def walk (tree : FileTree) (settings : Settings) : Nat → Path → List Path
  | 0, _ => []
  | depth + 1, directory =>
    match tree.list directory with
    | .error _ => []
    | .ok names => names.flatMap fun name =>
      let path := directory.join (.ofString name)
      if tree.isDirectory path then
        if settings.skippedDirs.contains name then [] else walk tree settings depth path
      else if path.isSource then [path]
      else []

/-- The graph of the project below `root`; `none` if that is no directory. A walk without any time ends
at once. -/
def build? (tree : FileTree) (settings : Settings) (root : Path) : Option ImportGraph :=
  if !tree.isDirectory root then none
  else
    let root := root.normalize
    if settings.walkBudget = some 0 then some { root, truncated := true }
    else some ((walk tree settings (tree.depth + 1) root).foldl (addFile tree) { root })

/-- The texts of the steps that lead to the last one. -/
def directoryNames (path : Path) : List String :=
  path.steps.dropLast.map fun step => step.elim "/" Segment.text

/-- The file is a test: its name has one of the markers, or a directory below `root` on the way to it
has one of the names of test directories. -/
def isTest (settings : Settings) (root path : Path) : Bool :=
  let name := (path.fileName?.getD "").toList
  settings.testMarkers.any (fun marker => Text.holds marker.toList name)
    || (directoryNames ((Path.relativeTo? root path).getD path)).any settings.testDirs.contains

/-- The tests of the project. -/
def tests (graph : ImportGraph) (settings : Settings) : List Path :=
  graph.files.toList.filter (isTest settings graph.root)

end ImportGraph

end ApiImpact
