import ApiImpact.Surface.Snapshot
import ApiImpact.Text.Offset
import ApiImpact.TypeScript.Usage

/-!
The export surface of a typed source. All declarations at top level are collected first, so an export
clause may stand before what it names; then exports and imports are taken in, in order.
-/

namespace ApiImpact.TypeScript

open Text

/-- The header of a declaration: the text from `start` to `stop` in one line, without the sign that
opens its body or value. -/
def headerBetween (source : List Char) (start stop : Nat) : List Char :=
  let text := (slice? source start (max start stop)).getD []
  collapse (trimEnd (dropEndWhile (fun c => c == '=' || c == '\x7b') (trimEnd text)))

/-- The header of `tree`, up to its part `body` if there is one. -/
def header (source : List Char) (tree : Tree) (body : Option Tree) : List Char :=
  headerBetween source tree.start (body.elim tree.stop Tree.start)

/-- The text of a node in one line. -/
def lineOfText (source : List Char) (tree : Tree) : String :=
  .ofList (collapse (textOf source tree))

/-- A declared type without its colon, in one line. -/
def typeText (source : List Char) (tree : Tree) : String :=
  .ofList (collapse ((trim (textOf source tree)).dropWhile (· == ':')))

/-- The name that a node writes. -/
def nameOf (source : List Char) (tree : Tree) : String :=
  .ofList (textOf source tree)

/-- The name that a node writes, perhaps in quotation marks. -/
def unquoted (source : List Char) (tree : Tree) : String :=
  unquote (textOf source tree)

/-- The parameter that a node of a parameter list declares; `this` is none. -/
def parameterOf? (source : List Char) (tree : Tree) : Option Parameter := do
  let pattern ← tree.child? .pattern
  if pattern.is .this then none
  else
    let text := dropLeadingCopies "...".toList (textOf source pattern)
    some {
      name := .ofList (trim text)
      declaredType := (tree.child? .type).map (typeText source)
      optional := tree.is .optionalParameter
      hasDefault := (tree.child? .value).isSome
      rest := pattern.is .restPattern }

/-- The parameters of a list. -/
def parametersOf (source : List Char) (list : Tree) : List Parameter :=
  (list.nodes.filter fun tree => tree.is .requiredParameter || tree.is .optionalParameter).filterMap
    (parameterOf? source)

/-- The parameters of a function: a list, or a single name before an arrow. -/
def functionParameters (source : List Char) (function : Tree) : List Parameter :=
  match function.child? .parameters, function.child? .parameter with
  | some list, _ => parametersOf source list
  | none, some single => [{ name := nameOf source single }]
  | none, none => []

/-- The shape of a function. -/
def functionShape (source : List Char) (function : Tree) : FunctionShape :=
  { params := functionParameters source function
    returnType := (function.child? .returnType).map (typeText source)
    isAsync := function.hasToken "async" }

/-- A symbol that stands where `anchor` begins. -/
def symbolAt (source : List Char) (anchor : Tree) (name : String) (kind : SymbolKind)
    (signature : List Char) (shape : Shape) : Symbol :=
  let position := positionOf source anchor.start
  { name, qualifiedName := name, kind, line := position.line, column := position.column,
    signature := .ofList signature, shape }

/-- The symbol of a function. -/
def functionSymbol (source : List Char) (function : Tree) (name : String) : Symbol :=
  symbolAt source function name .function (header source function (function.child? .body))
    (.function (functionShape source function))

/-- The name of a member that other code may use. -/
def publicName? (source : List Char) (member : Tree) : Option String := do
  let name ← member.child? .name
  let hidden := member.nodes.any fun child => child.is .accessibilityModifier
    && ["private", "protected"].contains (nameOf source child)
  if hidden || name.is .privatePropertyIdentifier then none else some (unquoted source name)

/-- The list with `item` at its end, unless it has it. -/
def addNew (items : List String) (item : String) : List String :=
  if items.contains item then items else items ++ [item]

/-- The shape of a class with one more member. The first constructor counts. -/
def addMember (source : List Char) (shape : ClassShape) (member : Tree) : ClassShape :=
  match member.kind?, publicName? source member with
  | some .methodDefinition, some name | some .methodSignature, some name
  | some .abstractMethodSignature, some name =>
    if name = "constructor" then
      let parameters := ((member.child? .parameters).map (parametersOf source)).getD []
      { shape with constructor := shape.constructor <|> some parameters }
    else { shape with methods := addNew shape.methods name }
  | some .publicField, some name => { shape with properties := addNew shape.properties name }
  | _, _ => shape

/-- The shape of a class. -/
def classShape (source : List Char) (tree : Tree) : ClassShape :=
  (((tree.child? .body).map Tree.nodes).getD []).foldl (addMember source) {}

/-- The symbol of a class. -/
def classSymbol (source : List Char) (tree : Tree) (name : String) : Symbol :=
  symbolAt source tree name .classType (header source tree (tree.child? .body))
    (.classType (classShape source tree))

/-- The member of an interface that a node declares. -/
def propertyOf? (source : List Char) (member : Tree) : Option Property :=
  let property (name : String) (declaredType : Option String) : Property :=
    { name, optional := member.hasToken "?", declaredType }
  match member.kind? with
  | some .propertySignature =>
    (member.child? .name).map fun name =>
      property (unquoted source name) ((member.child? .type).map (typeText source))
  | some .methodSignature =>
    (member.child? .name).map fun name =>
      property (unquoted source name) ((member.child? .parameters).map fun list =>
        .ofList (collapse ((slice? source list.start member.stop).getD [])))
  | some .callSignature => some (property "()" (some (lineOfText source member)))
  | some .constructSignature => some (property "new()" (some (lineOfText source member)))
  | some .indexSignature => some (property "[]" (some (lineOfText source member)))
  | _ => none

/-- The symbol of an interface. -/
def interfaceSymbol (source : List Char) (tree : Tree) (name : String) : Symbol :=
  let body := tree.child? .body
  symbolAt source tree name .interface (header source tree body)
    (.interface (((body.map Tree.nodes).getD []).filterMap (propertyOf? source)))

/-- The name of a member of an enumeration. Computed names are none. -/
def enumMemberName? (source : List Char) (member : Tree) : Option String :=
  match member.kind? with
  | some .enumAssignment => (member.child? .name).map (unquoted source)
  | some .propertyIdentifier | some .string => some (unquoted source member)
  | _ => none

/-- The symbol of an enumeration. -/
def enumSymbol (source : List Char) (tree : Tree) (name : String) : Symbol :=
  let body := tree.child? .body
  symbolAt source tree name .enumeration (header source tree body)
    (.enumeration (((body.map Tree.nodes).getD []).filterMap (enumMemberName? source)))

/-- The node is a function as an expression. -/
def isFunctionValue (tree : Tree) : Bool :=
  tree.is .arrowFunction || tree.is .functionExpression || tree.is .generatorFunction

/-- `text` without arrows at its end. -/
def dropArrows (text : List Char) : List Char :=
  (dropLeadingCopies ['>', '='] text.reverse).reverse

/-- The signature of a variable that holds a function: the variable's header and the function's. -/
def heldSignature (source : List Char) (declarator function : Tree) : List Char :=
  let own := header source declarator (some function)
  let held := trimEnd (dropArrows (header source function (function.child? .body)))
  collapse (own ++ ' ' :: held)

/-- The declaration of a variable by `keyword`; one that takes a value apart declares nothing. -/
def variableLocal? (source : List Char) (keyword : String) (declarator : Tree) : Option Local := do
  let nameNode ← declarator.child? .name
  if !nameNode.is .identifier then none
  else
    let name := nameOf source nameNode
    let value := declarator.child? .value
    let signed (signature : List Char) : List Char := keyword.toList ++ ' ' :: signature
    let plain : Symbol :=
      symbolAt source declarator name .binding (signed (header source declarator value))
        (.binding ((declarator.child? .type).map (typeText source)))
    match value with
    | some value =>
      if isFunctionValue value then
        let symbol := symbolAt source declarator name .function
          (signed (heldSignature source declarator value)) (.function (functionShape source value))
        some ⟨symbol, .function⟩
      else if value.is .classExpression then
        let symbol := classSymbol source value name
        some ⟨{ symbol with line := plain.line, column := plain.column }, .classType⟩
      else some ⟨plain, if value.is .object then .object else .binding⟩
    | none => some ⟨plain, .binding⟩

/-- The declarations of a node that is not ambient. -/
def plainLocals (source : List Char) (tree : Tree) : List Local :=
  let named (make : String → Symbol) : List Local :=
    (tree.child? .name).toList.map fun name =>
      let symbol := make (nameOf source name)
      ⟨symbol, .ofSymbol symbol.kind⟩
  match tree.kind? with
  | some .functionDeclaration | some .generatorFunctionDeclaration | some .functionSignature =>
    named (functionSymbol source tree)
  | some .classDeclaration | some .abstractClassDeclaration => named (classSymbol source tree)
  | some .interfaceDeclaration => named (interfaceSymbol source tree)
  | some .enumDeclaration => named (enumSymbol source tree)
  | some .typeAliasDeclaration =>
    match tree.child? .value with
    | some value => named fun name =>
      symbolAt source tree name .typeAlias (header source tree (some value))
        (.typeAlias (lineOfText source value))
    | none => []
  | some .lexicalDeclaration | some .variableDeclaration =>
    let keyword := (tree.children.head?.map (nameOf source)).getD "const"
    (tree.nodes.filter (·.is .variableDeclarator)).filterMap (variableLocal? source keyword)
  | _ => []

/-- The declarations of a node. -/
def localsOf (source : List Char) (tree : Tree) : List Local :=
  if tree.is .ambientDeclaration then tree.nodes.flatMap (plainLocals source)
  else plainLocals source tree

/-- The declarations of a statement, exported or not. -/
def localsOfStatement (source : List Char) (statement : Tree) : List Local :=
  if statement.is .exportStatement then
    ((statement.child? .declaration).map (localsOf source)).getD []
  else localsOf source statement

/-- Takes a value in as the default export. -/
def addDefaultValue (source : List Char) (found : Collection) (line : Nat) (style : ExportStyle)
    (value : Tree) : Collection :=
  let entry (kind : ExportKind) (name : Option String) : Export := .default line kind name style
  if value.is .identifier then
    let name := nameOf source value
    let (found, kind) := found.refer name
    found.addExport (entry kind (some name))
  else if isFunctionValue value then
    (found.publish (functionSymbol source value "default")).addExport (entry .function none)
  else if value.is .classExpression then
    let name := ((value.child? .name).map (nameOf source)).getD "default"
    (found.publish (classSymbol source value name)).addExport
      (entry .classType (if name = "default" then none else some name))
  else found.addExport (entry (if value.is .object then .object else .unknown) none)

/-- Takes an exported declaration in. -/
def addExportedLocal (line : Nat) (isDefault : Bool) (found : Collection) (declared : Local) :
    Collection :=
  let name := declared.symbol.name
  (found.publish declared.symbol).addExport
    (if isDefault then .default line declared.exportKind (some name) .declarative
    else .named name line declared.exportKind .declarative)

/-- Takes one name of an export clause in. -/
def addSpecifier (source : List Char) (line : Nat) (module : Option String) (found : Collection)
    (specifier : Tree) : Collection :=
  match specifier.child? .name with
  | none => found
  | some nameNode =>
    let localName := unquoted source nameNode
    let publicName := ((specifier.child? .newName).map (unquoted source)).getD localName
    let (found, kind) := if module.isSome then (found, .unknown) else found.refer localName
    let e : Export :=
      if publicName = "default" then .default line kind (some localName) .declarative
      else
        { Export.named publicName line kind .declarative with
          sourceName := if publicName = localName then none else some localName }
    found.addExport { e with sourceModule := module }

/-- The text that names everything a module exports, in a node of the form `* as name`. A comment inside
the node takes the place of the name. -/
def namespaceName? (source : List Char) (tree : Tree) : Option (List Char) := do
  let name ← tree.nodes.head?
  some (((slice? source tree.start name.start).bind firstComment?).getD (textOf source name))

/-- Takes a part of an export statement in that exports several names. -/
def addExportedNames (source : List Char) (line : Nat) (module : Option String) (found : Collection)
    (part : Tree) : Collection :=
  if part.is .exportClause then
    (part.nodes.filter (·.is .exportSpecifier)).foldl (addSpecifier source line module) found
  else if part.is .namespaceExport then
    match namespaceName? source part with
    | some publicName =>
      found.addExport
        { Export.named (unquote publicName) line .star .declarative with
          sourceName := some "*", sourceModule := module }
    | none => found
  else found

/-- Takes an export statement in that neither declares anything nor has a value. -/
def addReexport (source : List Char) (found : Collection) (line : Nat) (statement : Tree) :
    Collection :=
  let module := (statement.child? .source).map (unquoted source)
  let found := statement.nodes.foldl (addExportedNames source line module) found
  if statement.hasToken "*" && !statement.nodes.any (·.is .namespaceExport) then
    found.addExport { Export.named "*" line .star .declarative with sourceModule := module }
  else found

/-- Takes an export statement in. -/
def addExportStatement (source : List Char) (found : Collection) (statement : Tree) : Collection :=
  let line := lineOf source statement.start
  match statement.child? .declaration, statement.child? .value with
  | some declaration, _ =>
    (localsOf source declaration).foldl
      (addExportedLocal line (statement.hasToken "default")) found
  | none, some value => addDefaultValue source found line .declarative value
  | none, none =>
    if statement.hasToken "=" then
      match statement.nodes with
      | value :: _ => addDefaultValue source found line .assignment value
      | [] => found
    else addReexport source found line statement

/-- The name that one specifier of an import binds. -/
def importedBySpecifier? (source : List Char) (specifier : Tree) : Option ImportedName := do
  let name := unquoted source (← specifier.child? .name)
  some ⟨name, ((specifier.child? .newName).map (nameOf source)).getD name⟩

/-- The names that one part of an import clause binds. A name alone is bound to `whole`. -/
def importedByPart (source : List Char) (whole : String) (part : Tree) : List ImportedName :=
  match part.kind? with
  | some .identifier => [⟨whole, nameOf source part⟩]
  | some .namespaceImport => (namespaceName? source part).toList.map fun name => ⟨"*", .ofList name⟩
  | some .namedImports =>
    (part.nodes.filter (·.is .importSpecifier)).filterMap (importedBySpecifier? source)
  | _ => []

/-- Takes an import statement in. -/
def addImportStatement (source : List Char) (found : Collection) (statement : Tree) : Collection :=
  let clause := statement.nodes.find? fun part =>
    part.is .importClause || part.is .importRequireClause
  match statement.child? .source <|> clause.bind (·.child? .source) with
  | none => found
  | some module =>
    let whole := if clause.any (·.is .importRequireClause) then "*" else "default"
    found.addImport {
      module := unquoted source module
      names := ((clause.map Tree.nodes).getD []).flatMap (importedByPart source whole)
      line := lineOf source statement.start
      typeOnly := statement.hasToken "type" }

/-- Takes a statement in. -/
def addStatement (source : List Char) (found : Collection) (statement : Tree) : Collection :=
  if statement.is .exportStatement then addExportStatement source found statement
  else if statement.is .importStatement then addImportStatement source found statement
  else found

/-- The surface of the typed source `text`, stored at `filePath`. -/
def surface (filePath : String) (language : Language) (text : String) : Snapshot :=
  let source := text.toList
  let parsed := parse source (hasElements language)
  let statements := parsed.statements
  let empty : Snapshot :=
    { filePath, language, status := if parsed.complete then .parsed else .incomplete }
  let found : Collection :=
    { locals := statements.flatMap (localsOfStatement source), snapshot := empty }
  (statements.foldl (addStatement source) found).snapshot

end ApiImpact.TypeScript
