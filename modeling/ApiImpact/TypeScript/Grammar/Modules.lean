import ApiImpact.TypeScript.Grammar.Declarations

/-!
What a module imports and exports.
-/

namespace ApiImpact.TypeScript.Grammar

open Reading

/-- The name of something that a module exports: a word or a string. -/
def exportedName : Reading Tree :=
  anyWord .identifier <|> string

/-- A name with the name it is given in another module, as a node of `kind`. The word `type` before
them is a name itself unless a name follows it. -/
def specifier (kind : Kind) : Reading Tree :=
  (node kind do return (← wordOf ["type", "typeof"]) :: (← renamed))
    <|> (node kind do
      let text ← peekWord
      check (text == "type" || text == "typeof")
      let name ← inRole .name exportedName
      return [name, ← word "as", (← exportedName).as .newName])
    <|> node kind named
where
  named : Reading (List Tree) := do
    let name ← inRole .name exportedName
    return name :: (← optionalList (return [← word "as", (← exportedName).as .newName]))
  renamed : Reading (List Tree) := do
    let first ← peekWord
    let names ← named
    check (first != "as" || names.length == 3)
    let next ← peekSign
    check (next == "," || next == "\x7d")
    return names

/-- The module that names come from. -/
def fromClause : Reading (List Tree) := do
  return [← word "from", (← string).as .source]

/-- What else is said of an imported module. -/
def importAttribute (parts : Parts) : Reading Tree :=
  node .importAttribute do
    return [← wordOf ["with", "assert"], ← parts .unary]

/-- All exports of a module under one name. -/
def namespaceImport : Reading Tree :=
  node .namespaceImport do return [← sign "*", ← word "as", ← nameAs .identifier]

/-- Exports of a module by name. -/
def namedImports : Reading Tree :=
  node .namedImports (between "\x7b" (commaList (specifier .importSpecifier)) "\x7d")

/-- What is imported from a module. -/
def importClause : Reading Tree :=
  node .importClause do
    match ← attempt (namespaceImport <|> namedImports) with
    | some clause => return [clause]
    | none =>
      let default ← nameAs .identifier
      return default :: (← optionalList do
        return [← sign ",", ← namespaceImport <|> namedImports])

/-- A module that is loaded at once and given a name. -/
def importRequireClause : Reading Tree :=
  node .importRequireClause do
    let name ← nameAs .identifier
    let equals ← sign "="
    let head ← word "require"
    return [name, equals, head] ++ (← between "(" (return [(← string).as .source]) ")")

/-- What an import statement imports, and from where. -/
def imported : Reading (List Tree) :=
  (do return (← importClause) :: (← fromClause)) <|> (return [← importRequireClause])
    <|> (return [(← string).as .source])

/-- A statement that imports a module. -/
def importStatement (parts : Parts) : Reading Tree :=
  node .importStatement do
    let head ← word "import"
    let body ← (do return (← wordOf ["type", "typeof"]) :: (← imported)) <|> imported
    let attributes ← optionally (importAttribute parts)
    return head :: body ++ attributes ++ (← statementEnd)

/-- Names that a module exports. -/
def exportClause : Reading Tree :=
  node .exportClause (between "\x7b" (commaList (specifier .exportSpecifier)) "\x7d")

/-- What stands between the word `export` and the end of a statement without a declaration. -/
def exportedNames : Reading (List Tree) :=
  (do return [← node .namespaceExport (return [← sign "*", ← word "as", ← exportedName])]
    ++ (← fromClause))
    <|> (do return (← sign "*") :: (← fromClause))
    <|> do
      let types ← optionally (word "type")
      return types ++ [← exportClause] ++ (← optionalList fromClause)

/-- An export of one value as the whole module, or of the module under a global name. -/
def wholeExport (parts : Parts) : Reading (List Tree) :=
  (do return [← sign "=", ← parts (.expression true)])
    <|> (do return [← word "as", ← word "namespace", ← nameAs .identifier])

/-- The default export: a declaration or a value. -/
def defaultExport (parts : Parts) : Reading (List Tree) := do
  let head ← word "default"
  (do return [head, (← declaration parts).as .declaration])
    <|> do return [head, (← parts (.expression true)).as .value] ++ (← statementEnd)

/-- A statement that exports something. -/
def exportStatement (parts : Parts) : Reading Tree :=
  node .exportStatement do
    let decorators ← many do return [← decorator parts]
    let head ← word "export"
    let body ←
      (do
        let attributes ← exportedNames
        let more ← optionally (importAttribute parts)
        return attributes ++ more ++ (← statementEnd))
      <|> (do return (← wholeExport parts) ++ (← statementEnd))
      <|> defaultExport parts
      <|> (return [(← declaration parts).as .declaration])
    return decorators ++ [head] ++ body

end ApiImpact.TypeScript.Grammar
