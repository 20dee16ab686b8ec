import ApiImpact.TypeScript.Grammar.Classes

/-!
Declarations: variables, interfaces, type aliases, enumerations, namespaces and ambient ones.
-/

namespace ApiImpact.TypeScript.Grammar

open Reading

/-- One declared variable; an exclamation mark promises that it is assigned before it is used. -/
def variableDeclarator (parts : Parts) (allowIn : Bool) : Reading Tree :=
  node .variableDeclarator do
    let name ← inRole .name (parts .pattern)
    let promise ← optionally (sign "!")
    let type ← optionally (inRole .type (typeClause parts))
    return name :: promise ++ type ++ (← optionalList (initializer parts allowIn))

/-- Declared variables without the end of their statement. -/
def variableList (parts : Parts) (allowIn : Bool) : Reading Tree := do
  let keyword ← wordOf ["let", "const", "var"]
  let declared ← commaList1 (variableDeclarator parts allowIn)
  return .branch (if keyword.label == .token "var" then .variableDeclaration else .lexicalDeclaration)
    (keyword :: declared)

/-- A declaration of variables. -/
def variableStatement (parts : Parts) : Reading Tree := do
  let declaration ← variableList parts true
  return .branch (declaration.kind?.getD .lexicalDeclaration)
    (declaration.children ++ (← statementEnd))

/-- An interface. -/
def interfaceDeclaration (parts : Parts) : Reading Tree :=
  node .interfaceDeclaration do
    let head ← word "interface"
    let name ← inRole .name (nameAs .typeIdentifier)
    let types ← optionally (typeParameters parts)
    let extended ← optionally (node .extendsTypeClause do
      return (← word "extends") :: (← commaList1 (parts .type)))
    return [head, name] ++ types ++ extended ++ [(← memberList parts .interfaceBody).as .body]

/-- A name for a type. -/
def typeAlias (parts : Parts) : Reading Tree :=
  node .typeAliasDeclaration do
    let head ← word "type"
    let name ← inRole .name (nameAs .typeIdentifier)
    let types ← optionally (typeParameters parts)
    let equals ← sign "="
    let value ← parts .type
    return [head, name] ++ types ++ [equals, value.as .value] ++ (← statementEnd)

/-- One member of an enumeration. -/
def enumMember (parts : Parts) : Reading Tree := do
  let name ← propertyName parts
  match ← attempt (sign "=") with
  | none => return name
  | some equals =>
    return .branch .enumAssignment [name.as .name, equals, (← parts (.assignment true)).as .value]

/-- An enumeration. -/
def enumDeclaration (parts : Parts) : Reading Tree :=
  node .enumDeclaration do
    let constant ← optionally (word "const")
    let head ← word "enum"
    let name ← inRole .name (nameAs .identifier)
    let body ← node .enumBody (between "\x7b" (commaList (enumMember parts)) "\x7d")
    return constant ++ [head, name, body.as .body]

/-- A name, perhaps qualified by others. -/
def qualifiedName : Reading Tree := do
  let first ← nameAs .identifier
  let more ← many do return [← sign ".", ← anyWord .propertyIdentifier]
  return accesses first more
where
  accesses (first : Tree) : List Tree → Tree
    | dot :: next :: more => accesses (qualifyBy first dot next) more
    | _ => first

/-- A namespace or module. -/
def namespaceDeclaration (parts : Parts) : Reading Tree := do
  let head ← wordOf ["namespace", "module"]
  check !(← afterBreak)
  let kind : Kind := if head.label == .token "module" then .module else .internalModule
  let name ← inRole .name (string <|> qualifiedName)
  let body ← optionally (inRole .body (parts .block))
  check (kind == .module || !body.isEmpty)
  return .branch kind (head :: name :: body)

/-- A shorter name for an entity of a namespace. -/
def importAlias : Reading Tree :=
  node .importAlias do
    return [← word "import", ← nameAs .identifier, ← sign "=", ← qualifiedName] ++ (← statementEnd)

/-- A declaration of something that exists elsewhere. -/
def ambientDeclaration (parts : Parts) (declaration : Reading Tree) : Reading Tree :=
  node .ambientDeclaration do
    let head ← word "declare"
    check !(← afterBreak)
    (do return [head, ← word "global", ← parts .block]) <|> return [head, ← declaration]

/-- A declaration that is not ambient. -/
def plainDeclaration (parts : Parts) : Reading Tree := do
  match ← peekWord with
  | "function" | "async" => functionDeclaration parts
  | "class" | "abstract" => classDeclaration parts
  | "interface" => interfaceDeclaration parts
  | "type" => typeAlias parts
  | "enum" => enumDeclaration parts
  | "const" => enumDeclaration parts <|> variableStatement parts
  | "let" | "var" => variableStatement parts
  | "namespace" | "module" => namespaceDeclaration parts
  | "import" => importAlias
  | _ =>
    check ((← ahead).head? == some '@')
    classDeclaration parts

/-- A declaration. -/
def declaration (parts : Parts) : Reading Tree := do
  if (← peekWord) == "declare" then ambientDeclaration parts (plainDeclaration parts)
  else plainDeclaration parts

end ApiImpact.TypeScript.Grammar
