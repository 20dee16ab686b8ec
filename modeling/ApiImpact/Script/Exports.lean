import ApiImpact.ModuleReference.Extraction
import ApiImpact.Script.Value

/-!
The export surface of a script. Passes over the code, one for each form of export, add to one snapshot;
the first entry of each identity stays.
-/

namespace ApiImpact.Script

open Text Text.Pattern

/-- A name of letters, digits, `_` and `$`. -/
def scriptName : Pattern := one isAsciiIdentifierStart ++ most isNameChar

/-- A declaration at the beginning of a line: the words `export`, `default` and the keyword are the
groups 1, 2 and 4, the name is group 5. -/
def declarationPattern : Pattern :=
  lineStart ++ most isGap
    ++ optional (group 1 (literal "export" ++ most1 isGap
      ++ optional (group 2 (literal "default" ++ most1 isGap))))
    ++ optional (group 3 (literal "async" ++ most1 isGap))
    ++ group 4 (firstOf [
      literal "function" ++ wordEdge ++ optional (most isGap ++ char '*') ++ most isGap,
      firstOf [literal "class", literal "const", literal "let", literal "var"] ++ most1 isGap])
    ++ group 5 scriptName

/-- `export default`, up to the value. -/
def exportDefaultPattern : Pattern :=
  wordEdge ++ literal "export" ++ most1 isBlank ++ literal "default" ++ most1 isBlank

/-- `export` and an opening brace. -/
def exportClausePattern : Pattern :=
  wordEdge ++ literal "export" ++ most isBlank ++ char '\x7b'

/-- `export * from`, with the alias as group 1 and the quote as group 2. -/
def exportStarPattern : Pattern :=
  wordEdge ++ literal "export" ++ most isBlank ++ char '*' ++ most isBlank
    ++ optional (literal "as" ++ most1 isBlank ++ group 1 scriptName ++ most isBlank)
    ++ literal "from" ++ most isBlank ++ group 2 (one ModuleReference.isQuote)

/-- A sign of assignment that is no comparison, with the character behind it as group `index`. -/
def assigned (index : Nat) : Pattern :=
  most isBlank ++ char '=' ++ group index (orElse (one (· != '=')) textEnd)

/-- An assignment to `module.exports`, with the first character of the value as group 1. -/
def moduleExportsPattern : Pattern :=
  wordEdge ++ literal "module.exports" ++ assigned 1

/-- The exports object, perhaps named through `module`. -/
def exportsObject : Pattern := optional (literal "module.") ++ literal "exports"

/-- An assignment to a property of the exports, with the name as group 1 and the first character of
the value as group 2. -/
def exportsPropertyPattern : Pattern :=
  wordEdge ++ exportsObject ++ char '.' ++ group 1 scriptName ++ assigned 2

/-- A property defined on the exports, with the quote of its name as group 1. -/
def definePropertyPattern : Pattern :=
  wordEdge ++ literal "Object.defineProperty(" ++ most isBlank ++ exportsObject ++ most isBlank
    ++ char ',' ++ most isBlank ++ group 1 (one ModuleReference.isQuote)

/-- A match of the declaration pattern. -/
structure DeclarationHead where
  start : Nat
  name : String
  afterName : Nat
  keyword : String
  exported : Bool
  isDefault : Bool

namespace Source

/-- The code of a span. -/
def spanText (s : Source) (span : Span) : List Char :=
  (slice? s.code span.start span.stop).getD []

/-- The head that a match of the declaration pattern writes. -/
def declarationHead? (s : Source) (m : Match) : Option DeclarationHead := do
  let name ← m.group? 5
  let keyword ← m.group? 4
  some {
    start := m.span.start + byteLength ((s.spanText m.span).takeWhile isBlank)
    name := .ofList (s.spanText name)
    afterName := name.stop
    keyword := .ofList (trim (dropEndWhile (· == '*') (trim (s.spanText keyword))))
    exported := (m.group? 1).isSome
    isDefault := (m.group? 2).isSome }

/-- The declaration that begins with `head`; `none` for a function without a parameter list. -/
def declarationAt? (s : Source) (head : DeclarationHead) : Except InsideCharacter (Option Local) := do
  match head.keyword with
  | "function" =>
    return (← s.functionAt? head.afterName).map fun (shape, stop) =>
      s.functionLocal head.start head.name shape stop
  | "class" => return some (← s.classAt head.start head.name head.afterName)
  | keyword => return some (← s.bindingAt head.start head.name head.afterName keyword)

/-- Takes one declaration in, exporting it if it says so. -/
def addDeclaration (s : Source) (surface : Collection) (head : DeclarationHead) :
    Except InsideCharacter Collection := do
  if !s.isTopLevel head.start || head.name == "extends" then return surface
  match ← s.declarationAt? head with
  | none => return surface
  | some found =>
    let surface :=
      if head.exported then
        let line := s.lineOf head.start
        (surface.publish found.symbol).addExport
          (if head.isDefault then
            .default line found.exportKind (some head.name) .declarative
          else .named head.name line found.exportKind .declarative)
      else surface
    return { surface with locals := surface.locals ++ [found] }

/-- The declarations at top level. -/
def addDeclarations (s : Source) (surface : Collection) : Except InsideCharacter Collection :=
  ((declarationPattern.findAll s.code).filterMap s.declarationHead?).foldlM s.addDeclaration surface

/-- Takes in the default export of the value at `value`, unless there is a default export already. -/
def addDefaultExpression (s : Source) (surface : Collection) (m : Match) :
    Except InsideCharacter Collection := do
  if surface.snapshot.hasDefault then return surface
  let start := m.span.start
  let value := m.span.stop
  let line := s.lineOf start
  let rest ← s.codeFrom value
  let entry (kind : ExportKind) (name : Option String) : Export :=
    .default line kind name .declarative
  let isFunction ←
    if "function".toList.isPrefixOf (skipAsync rest) then pure true
    else pure ((← s.valueShapeAt value) == .function)
  if isFunction then
    let surface := match ← s.anyFunctionAt? value with
      | some (shape, stop) => surface.publish (s.functionLocal start "default" shape stop).symbol
      | none => surface
    return surface.addExport (entry .function none)
  if "class".toList.isPrefixOf rest then
    let found ← s.classAt start "default" (value + "class".length)
    return (surface.publish found.symbol).addExport (entry .classType none)
  if rest.head? = some '\x7b' then return surface.addExport (entry .object none)
  match ← s.identifierAt? value with
  | some name =>
    let (surface, kind) := surface.refer (.ofList name)
    return surface.addExport (entry kind (some (.ofList name)))
  | none => return surface.addExport (entry .unknown none)

/-- The `export default` expressions. -/
def addDefaultExpressions (s : Source) (surface : Collection) : Except InsideCharacter Collection :=
  (exportDefaultPattern.findAll s.code).foldlM s.addDefaultExpression surface

/-- The export that one entry of an export clause writes. -/
def clauseExport (line : Nat) (kind : ExportKind) (localName publicName : String)
    (module : Option String) : Export :=
  let e : Export :=
    if publicName = "default" then .default line kind (some localName) .declarative
    else
      { Export.named publicName line kind .declarative with
        sourceName := if publicName = localName then none else some localName }
  { e with sourceModule := module }

/-- The local and the public name in one entry of an export clause. -/
def clauseNames? (entry : List Char) : Option (String × String) :=
  match words entry with
  | [] => none
  | localName :: ['a', 's'] :: publicName :: _ => some (.ofList localName, .ofList publicName)
  | name :: _ => some (.ofList name, .ofList name)

/-- Takes one entry of an export clause in. -/
def addClauseEntry (line : Nat) (module : Option String) (surface : Collection) (entry : List Char) :
    Collection :=
  match clauseNames? entry with
  | none => surface
  | some (localName, publicName) =>
    let (surface, kind) :=
      if module.isSome then (surface, .unknown) else surface.refer localName
    surface.addExport (clauseExport line kind localName publicName module)

/-- Takes one export clause in, with the module it takes its names from if there is one. -/
def addExportClause (s : Source) (surface : Collection) (m : Match) :
    Except InsideCharacter Collection := do
  let opening := m.span.stop - 1
  match matchingClose? s.code opening with
  | none => return surface
  | some closing =>
    let after ← s.skipBlanks (closing + 1)
    let module ←
      if ← s.hasAt after "from" then
        pure (s.literalAt? (← s.skipBlanks (after + "from".length)))
      else pure none
    let list ← s.codeBetween (opening + 1) closing
    return (splitTopLevel list).foldl
      (fun surface (_, entry) => addClauseEntry (s.lineOf m.span.start) module surface entry)
      surface

/-- The export clauses. -/
def addExportClauses (s : Source) (surface : Collection) : Except InsideCharacter Collection :=
  (exportClausePattern.findAll s.code).foldlM s.addExportClause surface

/-- Takes one star re-export in. -/
def addExportStar (s : Source) (surface : Collection) (m : Match) : Collection :=
  match (m.group? 2).bind fun quote => s.literalAt? quote.start with
  | none => surface
  | some module =>
    let publicName := (m.group? 1).map fun span => String.ofList (s.spanText span)
    surface.addExport
      { Export.named (publicName.getD "*") (s.lineOf m.span.start) .star .declarative with
        sourceName := publicName.map fun _ => "*"
        sourceModule := some module }

/-- The star re-exports. -/
def addExportStars (s : Source) (surface : Collection) : Collection :=
  (exportStarPattern.findAll s.code).foldl s.addExportStar surface

/-- An expression may end before what follows `offset`. -/
def endsExpression (s : Source) (offset : Nat) : Except InsideCharacter Bool := do
  match (← s.codeFrom offset).dropWhile isGap with
  | [] => return true
  | c :: _ => return [';', '\n', '\r', ',', '\x7d'].contains c

/-- Publishes what the value at `value` defines, under `name` and at `anchor`, or refers to. Gives the
kind of an export of it and the local name it refers to. -/
def addAssignedValue (s : Source) (surface : Collection) (value : Nat) (name : String) (anchor : Nat) :
    Except InsideCharacter (Collection × ExportKind × Option String) := do
  match ← s.valueShapeAt value with
  | .function =>
    match ← s.anyFunctionAt? value with
    | none => return (surface, .function, none)
    | some (shape, stop) =>
      let ownName ←
        if ← s.hasAt value "function" then
          s.identifierAt? (← s.skipBlanks (value + "function".length))
        else pure none
      let name := ownName.elim name .ofList
      return (surface.publish (s.functionLocal anchor name shape stop).symbol, .function, none)
  | .classType =>
    let head := value + "class".length
    let ownName ← s.identifierAt? (← s.skipBlanks head)
    let name := (ownName.filter (· != "extends".toList)).elim name .ofList
    return (surface.publish (← s.classAt anchor name head).symbol, .classType, none)
  | .object => return (surface, .object, none)
  | .other =>
    match ← s.identifierAt? value with
    | none => return (surface, .unknown, none)
    | some referred =>
      if ← s.endsExpression (value + byteLength referred) then
        let (surface, kind) := surface.refer (.ofList referred)
        return (surface, kind, some (.ofList referred))
      else return (surface, .unknown, none)

/-- The key at `start` of a property whose text is `property`: a literal, or an identifier, the word
`async` before it left out when it is no key itself. -/
def propertyKey? (s : Source) (start : Nat) (property : List Char) :
    Except InsideCharacter (Option String) := do
  if property.head?.any ModuleReference.isQuote then return s.literalAt? start
  match ← s.identifierAt? start with
  | some key => return some (.ofList key)
  | none =>
    if "async".toList.isPrefixOf property then
      return (← s.identifierAt? (← s.skipBlanks (start + "async".length))).map .ofList
    else return none

/-- Takes one property of the exported object in; it stands at `start` and has the text `property`. -/
def addProperty (s : Source) (surface : Collection) (start : Nat) (property : List Char) :
    Except InsideCharacter Collection := do
  if "...".toList.isPrefixOf property then return surface
  match ← s.propertyKey? start property with
  | none => return surface
  | some key =>
    let beforeColon := property.takeWhile (· != ':')
    let (surface, kind) ←
      if beforeColon.length < property.length ∧ !beforeColon.contains '(' then
        let value ← s.skipBlanks (start + byteLength beforeColon + 1)
        let (surface, kind, _) ← s.addAssignedValue surface value key start
        pure (surface, kind)
      else if property.contains '(' then
        match ← s.functionAt? start with
        | some (shape, stop) =>
          pure (surface.publish (s.functionLocal start key shape stop).symbol, ExportKind.function)
        | none => pure (surface, ExportKind.function)
      else pure (surface.refer key)
    return surface.addExport (.named key (s.lineOf start) kind .assignment)

/-- Takes the properties of the object that opens at `opening` in as named exports. -/
def addProperties (s : Source) (surface : Collection) (opening : Nat) :
    Except InsideCharacter Collection := do
  match matchingClose? s.code opening with
  | none => return surface
  | some closing =>
    let list ← s.codeBetween (opening + 1) closing
    (splitTopLevel list).foldlM
      (fun surface (offset, piece) =>
        let start := opening + 1 + offset + byteLength (piece.takeWhile isBlank)
        s.addProperty surface start (trim piece))
      surface

/-- Takes one assignment to `module.exports` in: the properties of an object become named exports,
any other value the default. -/
def addModuleExports (s : Source) (surface : Collection) (m : Match) :
    Except InsideCharacter Collection := do
  let value ← s.skipBlanks ((m.group? 1).elim m.span.stop (·.start))
  if ← s.hasAt value "\x7b" then s.addProperties surface value
  else
    let (surface, kind, name) ← s.addAssignedValue surface value "default" m.span.start
    return surface.addExport (.default (s.lineOf m.span.start) kind name .assignment)

/-- The assignments to `module.exports`. -/
def addModuleExportsAll (s : Source) (surface : Collection) : Except InsideCharacter Collection :=
  (moduleExportsPattern.findAll s.code).foldlM s.addModuleExports surface

/-- Takes one assignment to a property of the exports in. -/
def addExportsProperty (s : Source) (surface : Collection) (m : Match) :
    Except InsideCharacter Collection := do
  match m.group? 1 with
  | none => return surface
  | some span =>
    let name := String.ofList (s.spanText span)
    let line := s.lineOf m.span.start
    let value ← s.skipBlanks ((m.group? 2).elim m.span.stop (·.start))
    let (surface, kind, referred) ← s.addAssignedValue surface value name m.span.start
    return surface.addExport
      (if name = "default" then .default line kind referred .assignment
      else { Export.named name line kind .assignment with sourceName := referred.filter (· != name) })

/-- The assignments to properties of the exports. -/
def addExportsProperties (s : Source) (surface : Collection) : Except InsideCharacter Collection :=
  (exportsPropertyPattern.findAll s.code).foldlM s.addExportsProperty surface

/-- Takes one property defined on the exports in; the marker `__esModule` is none. -/
def addDefinedProperty (s : Source) (surface : Collection) (m : Match) : Collection :=
  match (m.group? 1).bind fun quote => s.literalAt? quote.start with
  | none => surface
  | some name =>
    let line := s.lineOf m.span.start
    if name = "__esModule" then surface
    else if name = "default" then surface.addExport (.default line .unknown none .assignment)
    else surface.addExport (.named name line .unknown .assignment)

/-- The properties defined on the exports. -/
def addDefinedProperties (s : Source) (surface : Collection) : Collection :=
  (definePropertyPattern.findAll s.code).foldl s.addDefinedProperty surface

end Source

/-- The import that a module reference is recorded as; re-exports and dynamic imports are none. -/
def importOf? : ModuleReference → Option Import
  | .static specifier line typeOnly false names => some ⟨specifier, names, line, typeOnly⟩
  | .require specifier line names => some ⟨specifier, names, line, false⟩
  | _ => none

/-- The surface of the script `text`, stored at `filePath`. -/
def extract (filePath : String) (language : Language) (text : String) :
    Except InsideCharacter Snapshot := do
  let s := Source.of text.toList
  let empty : Snapshot :=
    { filePath, language, status := if s.isBalanced then .parsed else .incomplete }
  let surface ← s.addDeclarations { snapshot := empty }
  let surface ← s.addDefaultExpressions surface
  let surface ← s.addExportClauses surface
  let surface ← s.addModuleExportsAll (s.addExportStars surface)
  let surface ← s.addExportsProperties surface
  let surface := s.addDefinedProperties surface
  return { surface.snapshot with imports := (ModuleReference.extract text).filterMap importOf? }

end ApiImpact.Script
