import ApiImpact.Surface.Snapshot

/-!
Snapshots as JSON. The member names and their order are the format of stored snapshots.
-/

namespace ApiImpact

/-- The name of an export type in data. -/
def ExportType.id : ExportType → String
  | named => "named"
  | default => "default"

/-- The name of an export kind in data. -/
def ExportKind.id : ExportKind → String
  | function => "function"
  | classType => "class"
  | object => "object"
  | binding => "variable"
  | interface => "interface"
  | typeAlias => "type-alias"
  | enumeration => "enum"
  | star => "star"
  | unknown => "unknown"

/-- The name of an export style in data. -/
def ExportStyle.id : ExportStyle → String
  | declarative => "declarative"
  | assignment => "assignment"

/-- The name of a module system in data. -/
def ModuleSystem.id : ModuleSystem → String
  | esm => "esm"
  | commonJs => "common-js"
  | mixed => "mixed"
  | unknown => "unknown"

/-- The name of a parse status in data. -/
def ParseStatus.id : ParseStatus → String
  | parsed => "parsed"
  | incomplete => "partial"
  | failed => "failed"

/-- The name of a manifest type in data. -/
def ManifestType.id : ManifestType → String
  | module => "module"
  | commonJs => "common-js"
  | missing => "missing"

/-- The parameter as JSON. -/
def Parameter.toJson (p : Parameter) : Json :=
  .object [("name", .string p.name), ("type_annotation", .optString p.declaredType),
    ("optional", .bool p.optional), ("has_default", .bool p.hasDefault), ("rest", .bool p.rest)]

/-- The interface member as JSON. -/
def Property.toJson (p : Property) : Json :=
  .object [("name", .string p.name), ("optional", .bool p.optional),
    ("type_annotation", .optString p.declaredType)]

/-- The shape as JSON, tagged with its kind. -/
def Shape.toJson : Shape → Json
  | function f =>
    .object [("kind", .string "function"), ("params", .array (f.params.map Parameter.toJson)),
      ("return_type", .optString f.returnType), ("is_async", .bool f.isAsync)]
  | classType c =>
    .object [("kind", .string "class"), ("methods", .strings c.methods),
      ("constructor", c.constructor.elim .null fun ps => .array (ps.map Parameter.toJson)),
      ("properties", .strings c.properties)]
  | interface properties =>
    .object [("kind", .string "interface"), ("properties", .array (properties.map Property.toJson))]
  | typeAlias definition =>
    .object [("kind", .string "type-alias"), ("definition", .string definition)]
  | enumeration members => .object [("kind", .string "enum"), ("members", .strings members)]
  | binding declaredType =>
    .object [("kind", .string "variable"), ("declared_type", .optString declaredType)]

/-- The symbol as JSON. -/
def Symbol.toJson (s : Symbol) : Json :=
  .object [("name", .string s.name), ("qualified_name", .string s.qualifiedName),
    ("kind", .string s.kind.id), ("line", .nat s.line), ("column", .nat s.column),
    ("signature", .string s.signature), ("exported", .bool s.exported), ("meta", s.shape.toJson)]

/-- The export as JSON. -/
def Export.toJson (e : Export) : Json :=
  .object [("name", .string e.name), ("export_type", .string e.exportType.id),
    ("kind", .string e.kind.id), ("line", .nat e.line), ("source_name", .optString e.sourceName),
    ("source_module", .optString e.sourceModule), ("style", .string e.style.id)]

/-- The bound name as JSON. -/
def ImportedName.toJson (n : ImportedName) : Json :=
  .object [("imported", .string n.imported), ("local", .string n.localName)]

/-- The import as JSON. -/
def Import.toJson (i : Import) : Json :=
  .object [("module", .string i.module), ("names", .array (i.names.map ImportedName.toJson)),
    ("line", .nat i.line), ("type_only", .bool i.typeOnly)]

/-- The entry points as JSON, as they are written in the manifest. -/
def EntryPoints.toJson : EntryPoints → Json
  | path text => .string text
  | map entries => .object entries
  | list items => .array items

/-- The manifest as JSON. -/
def Manifest.toJson (m : Manifest) : Json :=
  .object [("module_type", .string m.moduleType.id),
    ("exports", m.entryPoints.elim .null EntryPoints.toJson)]

/-- The members of a snapshot that describe the file and its surface, in three groups between which
the time and the fingerprint stand when they are written too. -/
def Snapshot.members (s : Snapshot) (time fingerprint : List (String × Json)) :
    List (String × Json) :=
  let list (shelf : Shelf) : Json := .array ((s.shelf shelf).map Symbol.toJson)
  [("file_path", .string s.filePath)] ++ time
    ++ [("language", .string s.language.label), ("parse_status", .string s.status.id)]
    ++ fingerprint
    ++ [("functions", list .functions), ("classes", list .classes),
      ("interfaces", list .interfaces), ("type_aliases", list .typeAliases), ("enums", list .enums),
      ("variables", list .variables), ("exports", .array (s.exports.map Export.toJson)),
      ("imports", .array (s.imports.map Import.toJson)),
      ("module_system", .string s.moduleSystem.id),
      ("manifest", s.manifest.elim .null Manifest.toJson)]

/-- The snapshot as JSON without its time and fingerprint. -/
def Snapshot.toJson (s : Snapshot) : Json :=
  .object (s.members [] [])

/-- The snapshot as JSON, taken at `time`. -/
def Snapshot.toStampedJson (s : Snapshot) (time : String) : Json :=
  .object (s.members [("taken_at", .string time)] [("fingerprint", .nat s.fingerprint.toNat)])

end ApiImpact
