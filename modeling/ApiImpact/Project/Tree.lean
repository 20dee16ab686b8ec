import Std.Data.ExtTreeSet
import ApiImpact.Path.Basic

/-!
The files of a project. Directories exist as far as files lie below them. Paths are compared in normal
form, so all ways to write a path lead to one file. Access to single paths may be denied.
-/

namespace ApiImpact

/-- Why a path could not be accessed. The path is in normal form. -/
inductive FileError where
  | noSuchFile (path : Path)
  | notADirectory (path : Path)
  | permissionDenied
  deriving DecidableEq, Repr

/-- The error as text. -/
def FileError.message : FileError → String
  | noSuchFile path => s!"no such file: {path}"
  | notADirectory path => s!"not a directory: {path}"
  | permissionDenied => "permission denied"

/-- Files with their contents, and the paths that may not be read, written or listed. -/
structure FileTree where
  files : Std.ExtTreeMap Path String := ∅
  denied : Std.ExtTreeSet Path := ∅

namespace FileTree

/-- The tree with the file at `path`, in place of one that is there. -/
def insert (tree : FileTree) (path : Path) (text : String) : FileTree :=
  { tree with files := tree.files.insert path.normalize text }

/-- The tree without the file at `path`. -/
def remove (tree : FileTree) (path : Path) : FileTree :=
  { tree with files := tree.files.erase path.normalize }

/-- The tree in which `path` may not be accessed. -/
def deny (tree : FileTree) (path : Path) : FileTree :=
  { tree with denied := tree.denied.insert path.normalize }

/-- The tree in which `path` may be accessed. -/
def allow (tree : FileTree) (path : Path) : FileTree :=
  { tree with denied := tree.denied.erase path.normalize }

/-- There is a file at `path`. -/
def isFile (tree : FileTree) (path : Path) : Bool :=
  tree.files.contains path.normalize

/-- There are files below `path`. -/
def isDirectory (tree : FileTree) (path : Path) : Bool :=
  tree.files.keys.any fun file => file != path.normalize && path.normalize.isUnder file

/-- Access to `path` is denied. -/
def isDenied (tree : FileTree) (path : Path) : Bool :=
  tree.denied.contains path.normalize

/-- The contents of the file at `path`. -/
def read (tree : FileTree) (path : Path) : Except FileError String :=
  if tree.isDenied path then .error .permissionDenied
  else match tree.files[path.normalize]? with
    | some text => .ok text
    | none => .error (.noSuchFile path.normalize)

/-- The tree after `text` is written to `path`. -/
def write (tree : FileTree) (path : Path) (text : String) : Except FileError FileTree :=
  if tree.isDenied path then .error .permissionDenied else .ok (tree.insert path text)

/-- The name of the first step of a path. -/
def firstName? (path : Path) : Option String :=
  if path.absolute then some "/" else path.segments.head?.map Segment.text

/-- The names in the directory at `path`, sorted. -/
def names (tree : FileTree) (path : Path) : List String :=
  (Std.ExtTreeSet.ofList (tree.files.keys.filterMap fun file =>
    (Path.relativeTo? path.normalize file).bind firstName?)).toList

/-- The names in the directory at `path`, if it is one. -/
def list (tree : FileTree) (path : Path) : Except FileError (List String) :=
  if tree.isDenied path then .error .permissionDenied
  else
    let names := tree.names path
    if names.isEmpty then .error (.notADirectory path.normalize) else .ok names

/-- No directory is nested deeper than this. -/
def depth (tree : FileTree) : Nat :=
  tree.files.keys.foldl (fun deepest file => max deepest file.steps.length) 0

end FileTree

end ApiImpact
