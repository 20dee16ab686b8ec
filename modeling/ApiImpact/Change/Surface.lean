import Std.Data.ExtTreeSet
import ApiImpact.Change.Declaration
import ApiImpact.Change.ExportSurface
import ApiImpact.Rule
import ApiImpact.Surface.Snapshot

/-!
Changes of the package a module belongs to, and of the module system it is written in.
-/

namespace ApiImpact

/-- A change of the package. -/
inductive PackageChange where
  /-- The manifest exposed these entry points and exposes none now. -/
  | exportsMapRemoved (subpaths : List String)
  | typeChanged (before after : ManifestType)
  deriving DecidableEq, Repr

namespace PackageChange

/-- The entry points that are gone if all of them are. -/
def ofEntryPoints (before after : Manifest) : List PackageChange :=
  if before.hasEntryPoints && !after.hasEntryPoints then
    [exportsMapRemoved ((before.entryPoints.map EntryPoints.subpaths).getD [])]
  else []

/-- The change of the type that a manifest gives to its modules. -/
def ofTypes (before after : Manifest) : List PackageChange :=
  if before.effectiveType = after.effectiveType then []
  else [typeChanged before.effectiveType after.effectiveType]

/-- The changes between two manifests; there are none unless both could be read. -/
def between : Option Manifest → Option Manifest → List PackageChange
  | some before, some after => ofEntryPoints before after ++ ofTypes before after
  | _, _ => []

end PackageChange

/-- A change of the module system. -/
structure ModuleSystemChange where
  before : ModuleSystem
  after : ModuleSystem
  severity : Severity
  deriving DecidableEq, Repr

/-- The change between two module systems. One that is unknown says nothing. -/
def ModuleSystemChange.between? (before after : ModuleSystem) : Option ModuleSystemChange :=
  if before = after then none
  else match before, after with
    | .unknown, _ | _, .unknown => none
    | .mixed, _ => some ⟨before, after, .warning⟩
    | _, .mixed => some ⟨before, after, .info⟩
    | _, _ => some ⟨before, after, .breaking⟩

end ApiImpact

namespace ApiImpact.Text

/-- The distinct texts of a list, sorted. -/
def sortedDistinct (texts : List String) : List String :=
  (Std.ExtTreeSet.ofList texts).toList

end ApiImpact.Text

/-!
Everything that changed between two snapshots of one file.
-/

namespace ApiImpact

/-- How the surface of a file changed. -/
structure SurfaceChange where
  symbols : SymbolChanges := {}
  exports : ExportChanges := {}
  package : List PackageChange := []
  moduleSystem : Option ModuleSystemChange := none
  /-- Both snapshots were taken of typed sources. -/
  typed : Bool := false
  deriving DecidableEq, Repr

namespace SurfaceChange

/-- Nothing changed. -/
def isEmpty (change : SurfaceChange) : Bool :=
  change.symbols.isEmpty && change.exports.isEmpty && change.package.isEmpty
    && change.moduleSystem.isNone

/-- The names under which an export is known: its own and the one it is spoken of by. -/
def exportNames (e : Export) : List String :=
  [e.displayName, e.name]

/-- All names that are touched by a removal or modification, in order. Nothing can depend on an
addition yet. -/
def changedNames (change : SurfaceChange) : List String :=
  let names := change.symbols.removed.map (·.name)
    ++ change.symbols.modified.map (·.before.name)
    ++ change.exports.removed.flatMap (exportNames ·.was)
    ++ change.exports.modified.flatMap (exportNames ·.before)
  Text.sortedDistinct (names.filter (· != "*"))

/-- The two snapshots can differ and be compared: they are of one file, of different contents or
manifests, and both of them could be analyzed. -/
def isComparable (before after : Snapshot) : Bool :=
  before.filePath == after.filePath
    && !(before.fingerprint == after.fingerprint && before.manifest == after.manifest)
    && !before.isFailed && !after.isFailed

/-- What changed from `before` to `after`. -/
def between (threshold : UInt8) (before after : Snapshot) : SurfaceChange :=
  if isComparable before after then
    let typed := before.language.isTyped && after.language.isTyped
    { symbols := .between typed before after
      exports := .between threshold before after
      package := PackageChange.between before.manifest after.manifest
      moduleSystem := ModuleSystemChange.between? before.moduleSystem after.moduleSystem
      typed }
  else {}

end SurfaceChange

end ApiImpact
