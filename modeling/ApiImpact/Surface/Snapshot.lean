import ApiImpact.Language
import ApiImpact.Manifest
import ApiImpact.Surface.Export

/-!
Snapshots: the exported surface of one file at one time. A snapshot is put together by `addSymbol` and
`addExport`, which keep the first entry of each identity.
-/

namespace ApiImpact

/-- One name that an import binds. -/
structure ImportedName where
  /-- The name in the exporting module: `default`, `*` for the whole module, or an export. -/
  imported : String
  /-- The name it is bound to. -/
  localName : String
  deriving DecidableEq, Repr, Inhabited

/-- One import of a module. -/
structure Import where
  module : String
  names : List ImportedName
  line : Nat
  typeOnly : Bool
  deriving DecidableEq, Repr, Inhabited

/-- The module system a file is written in. -/
inductive ModuleSystem where
  | esm
  | commonJs
  | mixed
  | unknown
  deriving DecidableEq, Repr, Inhabited

/-- The name of the module system in messages. -/
def ModuleSystem.label : ModuleSystem → String
  | esm => "ESM"
  | commonJs => "CommonJS"
  | mixed => "mixed ESM/CommonJS"
  | unknown => "unknown"

/-- How much of a file was understood. -/
inductive ParseStatus where
  | parsed
  /-- There were errors; what could be found is there. -/
  | incomplete
  /-- The file was not analyzed at all. -/
  | failed
  deriving DecidableEq, Repr, Inhabited

/-- The surface of one file. -/
structure Snapshot where
  filePath : String
  language : Language
  status : ParseStatus
  fingerprint : UInt64 := 0
  /-- The published declarations in order of discovery. -/
  symbols : List Symbol := []
  exports : List Export := []
  imports : List Import := []
  moduleSystem : ModuleSystem := .unknown
  manifest : Option Manifest := none
  deriving Repr, Inhabited

namespace Snapshot

/-- The symbols of one list. -/
def shelf (s : Snapshot) (shelf : Shelf) : List Symbol :=
  s.symbols.filter (·.shelf == shelf)

/-- The published classes. -/
def classes (s : Snapshot) : List Symbol := s.shelf .classes

/-- All symbols, list by list. -/
def symbolsByShelf (s : Snapshot) : List Symbol :=
  Shelf.all.flatMap s.shelf

/-- The first symbol with this local name. -/
def findSymbol? (s : Snapshot) (name : String) : Option Symbol :=
  s.symbolsByShelf.find? (·.name == name)

/-- The file could not be analyzed. -/
def isFailed (s : Snapshot) : Bool :=
  s.status == .failed

/-- The snapshot with `symbol`, unless its list has one of the same qualified name. -/
def addSymbol (s : Snapshot) (symbol : Symbol) : Snapshot :=
  if (s.shelf symbol.shelf).any (·.qualifiedName == symbol.qualifiedName) then s
  else { s with symbols := s.symbols ++ [symbol] }

/-- The snapshot with `symbol` as part of the export surface. -/
def publish (s : Snapshot) (symbol : Symbol) : Snapshot :=
  s.addSymbol { symbol with exported := true }

/-- The snapshot with the export `e`, unless it has one of the same identity. -/
def addExport (s : Snapshot) (e : Export) : Snapshot :=
  if s.exports.any (·.key == e.key) then s else { s with exports := s.exports ++ [e] }

/-- The snapshot has a default export. -/
def hasDefault (s : Snapshot) : Bool :=
  s.exports.any (·.exportType == .default)

end Snapshot

/-!
Collecting a surface: the declarations of a module by name, and the snapshot that grows as exports
refer to them.
-/

/-- A declaration at the top level of a module, exported or not. -/
structure Local where
  symbol : Symbol
  /-- The kind of an export of it. -/
  exportKind : ExportKind
  deriving Repr, Inhabited

/-- What has been found of a module so far. -/
structure Collection where
  /-- All declarations at top level, in order. -/
  locals : List Local := []
  snapshot : Snapshot

namespace Collection

/-- The first declaration of `name`. -/
def local? (found : Collection) (name : String) : Option Local :=
  found.locals.find? (·.symbol.name == name)

/-- The collection with `symbol` published. -/
def publish (found : Collection) (symbol : Symbol) : Collection :=
  { found with snapshot := found.snapshot.publish symbol }

/-- The collection with one more export. -/
def addExport (found : Collection) (e : Export) : Collection :=
  { found with snapshot := found.snapshot.addExport e }

/-- The collection with one more import. -/
def addImport (found : Collection) (i : Import) : Collection :=
  { found with snapshot := { found.snapshot with imports := found.snapshot.imports ++ [i] } }

/-- Publishes what `name` refers to and gives its export kind. -/
def refer (found : Collection) (name : String) : Collection × ExportKind :=
  match found.local? name with
  | some declared => (found.publish declared.symbol, declared.exportKind)
  | none => (found, .unknown)

end Collection

end ApiImpact
